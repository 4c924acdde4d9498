import Equijoin.Proofs.Number.Shortest

/-! # The numbers that words stand for

* `Quantity`: a rational number, or an infinity.
* `Binary64.value`: the number of a finite word. `Binary64.quantity?` adds the infinities; a NaN
  stands for nothing.
* `Binary64.wholeValue?_eq_some`: the integer of a word is its number, if that is an integer.
* `Binary64.eq_of_value_eq`: words that stand for the same number are the same, zeros apart.
-/

set_option autoImplicit false

namespace Equijoin

/-- A rational number, or an infinity with its sign. -/
inductive Quantity where
  | number (q : ℚ)
  | infinite (negative : Bool)
  deriving DecidableEq

namespace Binary64

/-! ## Finite words -/

/-- The number that a finite word stands for. -/
def value (x : Binary64) : ℚ := if x.isNegative then -x.magnitude else x.magnitude

/-- The word stands for a number. -/
def IsFinite (x : Binary64) : Prop := x.biasedExponent ≠ 2047

variable {x y : Binary64}

theorem magnitude_nonneg (x : Binary64) : 0 ≤ x.magnitude := by
  unfold magnitude
  positivity

theorem magnitude_eq_zero : x.magnitude = 0 ↔ x.significand = 0 := by
  unfold magnitude
  rw [mul_eq_zero, Nat.cast_eq_zero, or_iff_left (by positivity : (2 : ℚ) ^ x.exponent ≠ 0)]

theorem abs_value (x : Binary64) : |x.value| = x.magnitude := by
  unfold value
  split
  · rw [abs_neg, abs_of_nonneg x.magnitude_nonneg]
  · exact abs_of_nonneg x.magnitude_nonneg

theorem value_eq_zero : x.value = 0 ↔ x.significand = 0 := by
  rw [← abs_eq_zero, abs_value, magnitude_eq_zero]

/-- The sign of a number other than zero is the sign of its word. -/
theorem value_neg_iff (h : x.value ≠ 0) : x.value < 0 ↔ x.isNegative = true := by
  have hpos : 0 < x.magnitude :=
    lt_of_le_of_ne x.magnitude_nonneg fun hzero => h (by rw [← abs_eq_zero, abs_value, hzero])
  unfold value
  split
  · rename_i hsign
    exact iff_of_true (neg_neg_of_pos hpos) hsign
  · rename_i hsign
    exact iff_of_false (not_lt.2 hpos.le) hsign

/-! ## Integers -/

theorem magnitudeRatio_den (x : Binary64) : 0 < x.magnitudeRatio.2 := by
  unfold magnitudeRatio
  split
  · exact Nat.one_pos
  · exact Nat.two_pow_pos _

theorem ratio_eq_natCast {num den n : Nat} (h : 0 < den) : ratio num den = n ↔ num = n * den := by
  have h' : (den : ℚ) ≠ 0 := Nat.cast_ne_zero.2 h.ne'
  rw [ratio, div_eq_iff h', ← Nat.cast_mul, Nat.cast_inj]

/-- The integer of a word is its number, if that is an integer. -/
theorem wholeValue?_eq_some {n : ℤ} :
    x.wholeValue? = some n ↔ x.IsFinite ∧ x.value = n := by
  unfold wholeValue? IsFinite
  by_cases hfinite : x.biasedExponent = 2047
  · rw [if_pos hfinite]
    exact iff_of_false (by simp) fun h => h.1 hfinite
  rw [if_neg hfinite, and_iff_right hfinite]
  have hratio := magnitudeRatio_eq x
  have hden := magnitudeRatio_den x
  generalize x.magnitudeRatio = r at hratio hden ⊢
  obtain ⟨num, den⟩ := r
  dsimp only at hratio hden ⊢
  by_cases hwhole : num % den = 0
  · have hmagnitude : x.magnitude = ((num / den : Nat) : ℚ) := by
      rw [← hratio, ratio_eq_natCast hden, Nat.div_mul_cancel (Nat.dvd_of_mod_eq_zero hwhole)]
    have hvalue : x.value =
        ((if x.isNegative then -((num / den : Nat) : ℤ) else (num / den : Nat) : ℤ) : ℚ) := by
      rw [value, hmagnitude, apply_ite (Int.cast : ℤ → ℚ), Int.cast_neg, Int.cast_natCast]
    rw [if_pos hwhole, Option.some_inj, hvalue, Int.cast_inj]
  · rw [if_neg hwhole]
    refine iff_of_false (by simp) fun hvalue => hwhole ?_
    -- the number of the word has no fraction, so that nothing is left over
    have hmagnitude : x.magnitude = (n.natAbs : ℚ) := by
      rw [← abs_value, hvalue, ← Int.cast_abs, ← Int.natCast_natAbs, Int.cast_natCast]
    rw [← hratio, ratio_eq_natCast hden] at hmagnitude
    rw [hmagnitude, Nat.mul_mod_left]

/-! ## Words of one number -/

/-- A finite word is near to its own number. -/
theorem near_magnitude (x : Binary64) :
    Near x.significand x.exponent x.magnitude := by
  have hunit : (0 : ℚ) < 2 ^ x.exponent := by positivity
  have hbelow : (0 : ℚ) <
      if x.significand = 0x10000000000000 ∧ x.exponent ≠ -1074 then 1 / 4 else 1 / 2 := by
    split <;> norm_num
  have hlow := mul_lt_mul_of_pos_right (sub_lt_self (x.significand : ℚ) hbelow) hunit
  have hhigh : x.magnitude < ((x.significand : ℚ) + 1 / 2) * 2 ^ x.exponent :=
    mul_lt_mul_of_pos_right (by linarith) hunit
  exact ⟨hlow.le, hhigh.le, .inr ⟨hlow, hhigh⟩⟩

/-- Words that stand for the same number are the same, zeros apart. -/
theorem eq_of_value_eq (hx : x.IsFinite) (hy : y.IsFinite) (hne : x.value ≠ 0)
    (h : x.value = y.value) : x = y := by
  have hsign : x.isNegative = y.isNegative := by
    rw [Bool.eq_iff_iff, ← value_neg_iff hne, ← value_neg_iff (h ▸ hne), h]
  have hmagnitude : x.magnitude = y.magnitude := by
    rw [← abs_value, h, abs_value]
  have hpos : ∀ z : Binary64, z.value ≠ 0 → 0 < z.significand := fun z hz =>
    Nat.pos_of_ne_zero fun hzero => hz (value_eq_zero.2 hzero)
  have hless : ∀ z : Binary64, z.IsFinite → z.biasedExponent < 2047 := fun z hz => by
    have := z.biasedExponent_lt
    unfold IsFinite at hz
    omega
  -- both are the word nearest to this number
  have hratio := magnitudeRatio_eq y
  have hnear := near_magnitude y
  have hnear' := near_magnitude x
  rw [hmagnitude] at hnear'
  rw [← hratio] at hnear hnear'
  rw [← nearest_eq y.magnitudeRatio_den (hpos x hne) (hless x hx) hnear', hsign,
    nearest_eq y.magnitudeRatio_den (hpos y (h ▸ hne)) (hless y hy) hnear]

/-! ## Infinities -/

/-- What a word stands for, unless it is a NaN. -/
def quantity? (x : Binary64) : Option Quantity :=
  if x.isNaN then none
  else if x.isInfinite then some (.infinite x.isNegative)
  else some (.number x.value)

theorem isInfinite_iff (h : x.isNaN = false) : x.isInfinite = true ↔ ¬ x.IsFinite := by
  unfold isInfinite IsFinite
  unfold isNaN at h
  simp only [Bool.and_eq_false_iff, bne_eq_false_iff_eq, beq_eq_false_iff_ne] at h
  simp only [Bool.and_eq_true, beq_iff_eq, not_not]
  exact and_iff_left_of_imp fun hbiased => h.resolve_left fun hne => hne hbiased

theorem quantity?_finite (h : x.IsFinite) : x.quantity? = some (.number x.value) := by
  unfold IsFinite at h
  simp [quantity?, isNaN, isInfinite, h]

theorem quantity?_infinite (hnumber : x.isNaN = false) (h : ¬ x.IsFinite) :
    x.quantity? = some (.infinite x.isNegative) := by
  have hinfinite := (isInfinite_iff hnumber).2 h
  simp [quantity?, hnumber, hinfinite]

/-- Infinities of one sign are the same word. -/
theorem eq_of_infinite (hx : x.isInfinite = true) (hy : y.isInfinite = true)
    (h : x.isNegative = y.isNegative) : x = y := by
  rw [← infinity_eq hx, h, infinity_eq hy]

end Binary64

end Equijoin
