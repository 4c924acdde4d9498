import Equijoin.Proofs.Number.Integers
import Equijoin.Proofs.Tables.Cells
import Equijoin.Proofs.Tables.KeyAtoms

/-! # Integers as keys

An integer is read exactly from a column of integers. From a column of floats it is read as the
nearest float, so that only integers of 53 bits are sure to meet themselves.

* `Spells`: the texts of an integer.
* `readInt_of_spells`, `read?_of_spells`: what is read from them.
* `ofCell_integers`: which integers of the two kinds of columns have one canonical form.
-/

set_option autoImplicit false

namespace Equijoin

/-! ## The texts of an integer -/

/-- Some digits, and nothing else. -/
structure Digits (ds : List Char) : Prop where
  ne : ds ≠ []
  isDigit : ∀ c ∈ ds, c.isDigit = true

/-- The number that digits spell. -/
def digitsValue (ds : List Char) : Nat := Nat.ofDigitChars 10 ds 0

/-- The text of an integer: digits, with a sign or without. -/
inductive Spells : List Char → ℤ → Prop
  | unsigned {ds : List Char} (h : Digits ds) : Spells ds (digitsValue ds)
  | plus {ds : List Char} (h : Digits ds) : Spells ('+' :: ds) (digitsValue ds)
  | minus {ds : List Char} (h : Digits ds) : Spells ('-' :: ds) (-digitsValue ds)

theorem Spells.ne_nil {cs : List Char} {n : ℤ} (h : Spells cs n) : cs ≠ [] := by
  cases h with
  | unsigned h => exact h.ne
  | plus h => exact List.cons_ne_nil _ _
  | minus h => exact List.cons_ne_nil _ _

/-! ## Integers -/

section Integers

variable {cs ds : List Char} {n : ℤ}

theorem readInt_plus (hne : ds ≠ []) : Whole.readInt ('+' :: ds) =
    (Whole.readDigits 0x7FFFFFFFFFFFFFFF .tooLarge 0 ds).map fun n => (n : ℤ) := by
  obtain ⟨d, ds, rfl⟩ := List.exists_cons_of_ne_nil hne
  rfl

theorem readInt_of_spells (h : Spells cs n) (hlow : -2 ^ 63 ≤ n) (hhigh : n < 2 ^ 63) :
    Whole.readInt cs = .ok n := by
  cases h with
  | unsigned h =>
    rw [Whole.readInt_digits h.isDigit h.ne, Whole.readDigits_eq h.isDigit]
    · rfl
    · change digitsValue cs ≤ _
      omega
  | @plus ds h =>
    rw [readInt_plus h.ne, Whole.readDigits_eq h.isDigit]
    · rfl
    · change digitsValue ds ≤ _
      omega
  | @minus ds h =>
    rw [Whole.readInt_minus h.ne, Whole.readDigits_eq h.isDigit]
    · rfl
    · change digitsValue ds ≤ _
      omega

end Integers

/-! ## Floats -/

/-- The integer with at most 53 bits, and zeros behind them, that is nearest to `n`. -/
def roundedInt (n : ℤ) : ℤ := n.sign * Binary64.rounded n.natAbs

theorem roundedInt_eq_self {n : ℤ} (h : n.natAbs ≤ 2 ^ 53) : roundedInt n = n := by
  unfold roundedInt
  rw [Binary64.rounded_eq_self h, Int.sign_mul_natAbs]

theorem roundedInt_natCast (n : Nat) : roundedInt n = Binary64.rounded n := by
  unfold roundedInt
  rw [Int.natAbs_natCast]
  rcases Nat.eq_zero_or_pos n with rfl | hpos
  · rfl
  · rw [Int.sign_eq_one_of_pos (Int.natCast_pos.2 hpos), one_mul]

theorem roundedInt_neg (n : ℤ) : roundedInt (-n) = -roundedInt n := by
  unfold roundedInt
  rw [Int.sign_neg, Int.natAbs_neg, neg_mul]

section Floats

variable {cs ds : List Char} {n : ℤ}

theorem readUnsigned?_digits (negative : Bool) (h : Digits ds) :
    Binary64.readUnsigned? negative ds = some (.nearest negative (digitsValue ds) 1) := by
  have hread := Decimal.readUnsigned?_plain negative h.isDigit h.ne (.inl rfl)
    (rfl : Decimal.readExponent? [] = some 0)
  rw [List.append_nil, ofDigits_eq] at hread
  unfold Binary64.readUnsigned?
  rw [hread]
  refine congrArg some ((if_pos le_rfl).trans ?_)
  exact congrArg (Binary64.nearest negative · 1) (mul_one _)

theorem read?_unsigned {s : String} (hs : s.toList = ds) (h : Digits ds) :
    Binary64.read? s = Binary64.readUnsigned? false ds := by
  unfold Binary64.read?
  rw [hs]
  split
  · exact absurd (h.isDigit '-' List.mem_cons_self) (by decide)
  · exact absurd (h.isDigit '+' List.mem_cons_self) (by decide)
  · rfl

theorem nearest_roundedInt (negative : Bool) {k : Nat} (h : k < 2 ^ 64) :
    (Binary64.nearest negative k 1).IsFinite ∧
      (Binary64.nearest negative k 1).value = roundedInt (if negative then -k else k) := by
  obtain ⟨hfinite, hvalue⟩ := Binary64.nearest_integer negative h
  refine ⟨hfinite, ?_⟩
  rw [hvalue]
  split
  · rw [roundedInt_neg, roundedInt_natCast, Int.cast_neg, Int.cast_natCast]
  · rw [roundedInt_natCast, Int.cast_natCast]

/-- The text of an integer is read as the nearest float. -/
theorem read?_of_spells {s : String} (h : Spells s.toList n) (hbound : n.natAbs < 2 ^ 64) :
    ∃ x, Binary64.read? s = some x ∧ x.IsFinite ∧ x.value = roundedInt n := by
  generalize hs : s.toList = cs at h
  cases h with
  | unsigned h =>
    rw [Int.natAbs_natCast] at hbound
    exact ⟨_, (read?_unsigned hs h).trans (readUnsigned?_digits false h),
      nearest_roundedInt false hbound⟩
  | plus h =>
    rw [Int.natAbs_natCast] at hbound
    refine ⟨_, ?_, nearest_roundedInt false hbound⟩
    unfold Binary64.read?
    rw [hs]
    exact readUnsigned?_digits false h
  | minus h =>
    rw [Int.natAbs_neg, Int.natAbs_natCast] at hbound
    refine ⟨_, ?_, nearest_roundedInt true hbound⟩
    unfold Binary64.read?
    rw [hs]
    exact readUnsigned?_digits true h

end Floats

/-! ## Cells -/

theorem ofCell_eq_ofText {storage : Storage} {raw : String} (h : Text.trim raw ≠ "") :
    Value.ofCell storage raw = Value.ofText storage raw := by
  have hraw : raw ≠ "" := by
    rintro rfl
    exact h (by decide)
  unfold Value.ofCell
  rw [if_neg hraw, if_neg fun hblank => h hblank.2]

section Cells

variable {t u : String} {a b : ℤ}

theorem Spells.trim_ne (h : Spells (Text.trim t).toList a) : Text.trim t ≠ "" := by
  intro hempty
  rw [hempty] at h
  exact h.ne_nil rfl

theorem ofCell_int64_of_spells (h : Spells (Text.trim t).toList a) (hlow : -2 ^ 63 ≤ a)
    (hhigh : a < 2 ^ 63) : Value.ofCell .int64 t = .ok (.int (Int64.ofInt a)) := by
  rw [ofCell_eq_ofText h.trim_ne]
  unfold Value.ofText Whole.read
  rw [readInt_of_spells h hlow hhigh]
  rfl

theorem ofCell_float64_of_spells (h : Spells (Text.trim u).toList b) (hbound : b.natAbs < 2 ^ 64) :
    ∃ x : Binary64, Value.ofCell .float64 u = .ok (.float x) ∧ x.IsFinite ∧
      x.value = roundedInt b := by
  obtain ⟨x, hread, hx⟩ := read?_of_spells h hbound
  refine ⟨x, ?_, hx⟩
  rw [ofCell_eq_ofText h.trim_ne]
  unfold Value.ofText
  rw [hread]

/-- An integer from a column of integers has the canonical form of an integer from a column of
floats if it is the other one rounded to 53 bits, and not `-2 ^ 63`. Up to `2 ^ 53` nothing is
rounded, so that an integer meets just itself. -/
theorem ofCell_integers (ht : Spells (Text.trim t).toList a) (hu : Spells (Text.trim u).toList b)
    (ha : -2 ^ 63 ≤ a) (ha' : a < 2 ^ 63) (hb : -2 ^ 63 ≤ b) (hb' : b < 2 ^ 63) :
    ∃ v w, Value.ofCell .int64 t = .ok v ∧ Value.ofCell .float64 u = .ok w ∧
      KeyAtom.ofValue v ≠ .null ∧ KeyAtom.ofValue w ≠ .null ∧
      (KeyAtom.ofValue v = KeyAtom.ofValue w ↔ a = roundedInt b ∧ a ≠ -2 ^ 63) ∧
      (b.natAbs ≤ 2 ^ 53 → (KeyAtom.ofValue v = KeyAtom.ofValue w ↔ a = b)) := by
  obtain ⟨x, hread, hfinite, hvalue⟩ := ofCell_float64_of_spells hu (by omega)
  have hcast : (Int64.ofInt a).toInt = a := Int64.toInt_ofInt_of_le ha ha'
  have hlowest : Int64.ofInt a ≠ Int64.minValue ↔ a ≠ -2 ^ 63 := by
    rw [Ne, ← Int64.toInt_inj, hcast]
    exact Iff.rfl
  have hsame : KeyAtom.ofValue (.int (Int64.ofInt a)) = KeyAtom.ofValue (.float x) ↔
      a = roundedInt b ∧ a ≠ -2 ^ 63 := by
    rw [eq_comm, KeyAtom.ofValue, KeyAtom.ofValue, ofFloat_eq_int, Binary64.Folds,
      and_iff_right hfinite, hvalue, hcast, Int.cast_inj, hlowest, eq_comm]
  refine ⟨_, _, ofCell_int64_of_spells ht ha ha', hread, by simp [KeyAtom.ofValue], ?_, hsame,
    fun hshort => ?_⟩
  · rw [Ne, ofValue_eq_null]
    rintro (⟨⟨⟩⟩ | ⟨y, heq, hnan⟩ | ⟨s, ⟨⟩, -⟩)
    obtain rfl := Value.float.inj heq
    cases (isNaN_of_quantity?_eq_some (Binary64.quantity?_finite hfinite)).symm.trans hnan
  · rw [hsame, roundedInt_eq_self hshort, and_iff_left_iff_imp]
    intro heq
    omega

end Cells

/-- The integer `2 ^ 53 + 1` does not meet itself, as its float is `2 ^ 53`. -/
theorem ofCell_integers_odd :
    ∃ v w, Value.ofCell .int64 "9007199254740993" = .ok v ∧
      Value.ofCell .float64 "9007199254740993" = .ok w ∧
      KeyAtom.ofValue v ≠ KeyAtom.ofValue w := by
  have hspells : Spells (Text.trim "9007199254740993").toList 9007199254740993 :=
    .unsigned ⟨by decide, List.all_eq_true.1 (by decide)⟩
  obtain ⟨v, w, hv, hw, -, -, hsame, -⟩ := ofCell_integers hspells hspells
    (by norm_num) (by norm_num) (by norm_num) (by norm_num)
  refine ⟨v, w, hv, hw, fun h => ?_⟩
  exact absurd (hsame.1 h).1 (by decide)

end Equijoin
