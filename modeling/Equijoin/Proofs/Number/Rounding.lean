import Mathlib.Algebra.Order.Field.Power
import Mathlib.Algebra.Order.Field.Rat
import Mathlib.Tactic.FieldSimp
import Mathlib.Tactic.Linarith
import Mathlib.Tactic.NormNum
import Mathlib.Tactic.Positivity
import Mathlib.Tactic.Ring
import Equijoin.Number.Binary64

/-! # Rounding to the nearest word

A finite word is the nearest one to all numbers of an interval around it. The interval ends half way
to the neighbours, and holds its ends if the significand is even.

* `Binary64.ratio`: the quotient that is rounded, as a rational number.
* `floorLog2_spec`: the power of two at or below a quotient.
* `Binary64.RoundsTo`, `roundHalfEven_eq`: the integer to which a quotient is rounded.
* `Binary64.Near`: the interval of a significand and an exponent.
* `nearestMagnitude_eq`: what is in the interval of a significand is rounded to it.
* `finite_word`, `nearest_eq`: the fields of a word, and what is rounded to it.
-/

set_option autoImplicit false

namespace Equijoin.Binary64

/-! ## Quotients -/

/-- A quotient of natural numbers. -/
def ratio (num den : Nat) : ℚ := (num : ℚ) / den

theorem twoTo_cast (n : Nat) : ((twoTo n : Nat) : ℚ) = (2 : ℚ) ^ (n : ℤ) := by
  rw [zpow_natCast]
  exact Nat.cast_pow 2 n

theorem twoTo_toNat {e : ℤ} (h : 0 ≤ e) : ((twoTo e.toNat : Nat) : ℚ) = (2 : ℚ) ^ e := by
  rw [twoTo_cast, Int.toNat_of_nonneg h]

theorem num_pos_of_ratio {num den : Nat} (h : 0 < ratio num den) : 0 < num := by
  refine Nat.pos_of_ne_zero fun hzero => ?_
  rw [hzero, ratio, Nat.cast_zero, zero_div] at h
  exact lt_irrefl _ h

/-- A quotient in units of a power of two. -/
theorem ratio_scaled {num den : Nat} (q : ℤ) :
    (if 0 ≤ q then ratio num (den * twoTo q.toNat) else ratio (num * twoTo (-q).toNat) den) =
      ratio num den / 2 ^ q := by
  unfold ratio
  split
  · rename_i hq
    rw [Nat.cast_mul, twoTo_toNat hq, div_mul_eq_div_div]
  · rename_i hq
    rw [Nat.cast_mul, twoTo_toNat (by omega), zpow_neg]
    field_simp

/-- The highest bit of a number is at or below it. -/
theorem log2_bounds {n : Nat} (h : 0 < n) :
    (2 : ℚ) ^ (n.log2 : ℤ) ≤ n ∧ (n : ℚ) < 2 ^ ((n.log2 : ℤ) + 1) := by
  constructor
  · rw [zpow_natCast]
    exact_mod_cast Nat.log2_self_le h.ne'
  · rw [← Nat.cast_succ, zpow_natCast]
    exact_mod_cast Nat.lt_log2_self

/-- The difference of the highest bits is off by one at most. -/
theorem ratio_bounds {num den : Nat} {e : ℤ} (hnum : 0 < num) (hden : 0 < den)
    (he : (num.log2 : ℤ) - den.log2 = e) :
    (2 : ℚ) ^ (e - 1) ≤ ratio num den ∧ ratio num den < 2 ^ (e + 1) := by
  have hden' : (0 : ℚ) < den := Nat.cast_pos.2 hden
  obtain ⟨hnumLow, hnumHigh⟩ := log2_bounds hnum
  obtain ⟨hdenLow, hdenHigh⟩ := log2_bounds hden
  constructor
  · rw [ratio, le_div_iff₀ hden']
    calc (2 : ℚ) ^ (e - 1) * den ≤ 2 ^ (e - 1) * 2 ^ ((den.log2 : ℤ) + 1) := by
          gcongr
      _ = 2 ^ (num.log2 : ℤ) := by
        rw [← zpow_add₀ two_ne_zero]
        congr 1
        omega
      _ ≤ num := hnumLow
  · rw [ratio, div_lt_iff₀ hden']
    calc (num : ℚ) < 2 ^ ((num.log2 : ℤ) + 1) := hnumHigh
      _ = 2 ^ (e + 1) * 2 ^ (den.log2 : ℤ) := by
        rw [← zpow_add₀ two_ne_zero]
        congr 1
        omega
      _ ≤ 2 ^ (e + 1) * den := by gcongr

/-- A quotient is compared with a power of two by a product. -/
theorem twoTo_le_iff (num : Nat) {den : Nat} (hden : 0 < den) (e : ℤ) :
    (if 0 ≤ e then den * twoTo e.toNat ≤ num else den ≤ num * twoTo (-e).toNat) ↔
      (2 : ℚ) ^ e ≤ ratio num den := by
  have hden' : (0 : ℚ) < den := Nat.cast_pos.2 hden
  rw [← one_le_div (by positivity : (0 : ℚ) < 2 ^ e), ← ratio_scaled]
  split
  · rename_i hsign
    have hunit : (0 : ℚ) < ((den * twoTo e.toNat : Nat) : ℚ) := by
      rw [Nat.cast_mul, twoTo_toNat hsign]
      positivity
    rw [ratio, one_le_div hunit, Nat.cast_le]
  · rw [ratio, one_le_div hden', Nat.cast_le]

theorem floorLog2_spec {num den : Nat} (hnum : 0 < num) (hden : 0 < den) :
    (2 : ℚ) ^ floorLog2 num den ≤ ratio num den ∧
      ratio num den < 2 ^ (floorLog2 num den + 1) := by
  generalize he : (num.log2 : ℤ) - (den.log2 : ℤ) = e
  obtain ⟨hlower, hupper⟩ := ratio_bounds hnum hden he
  have hfits := twoTo_le_iff num hden e
  unfold floorLog2
  simp only [he]
  by_cases hle : (2 : ℚ) ^ e ≤ ratio num den
  · rw [if_pos (hfits.2 hle)]
    exact ⟨hle, hupper⟩
  · rw [if_neg fun h => hle (hfits.1 h), Int.sub_add_cancel]
    exact ⟨hlower, lt_of_not_ge hle⟩

theorem floorLog2_lt {num den : Nat} {e : ℤ} (hnum : 0 < num) (hden : 0 < den)
    (h : ratio num den < 2 ^ e) : floorLog2 num den < e :=
  (zpow_lt_zpow_iff_right₀ (one_lt_two (α := ℚ))).1 ((floorLog2_spec hnum hden).1.trans_lt h)

theorem le_floorLog2 {num den : Nat} {e : ℤ} (hnum : 0 < num) (hden : 0 < den)
    (h : (2 : ℚ) ^ e ≤ ratio num den) : e ≤ floorLog2 num den := by
  have hlt := (zpow_lt_zpow_iff_right₀ (one_lt_two (α := ℚ))).1
    (h.trans_lt (floorLog2_spec hnum hden).2)
  omega

/-! ## Integers -/

/-- A number is within one half of an integer; at one half the integer is even. -/
def RoundsTo (s : Nat) (v : ℚ) : Prop :=
  (s : ℚ) - 1 / 2 ≤ v ∧ v ≤ s + 1 / 2 ∧ (s % 2 = 0 ∨ (s : ℚ) - 1 / 2 < v ∧ v < s + 1 / 2)

/-- The rounded quotient is known by what it leaves over, in halves of the divisor. -/
theorem roundHalfEven_of_le {a b s : Nat} (hb : 0 < b) (hbelow : 2 * s * b ≤ 2 * a + b)
    (habove : 2 * a ≤ 2 * s * b + b)
    (heven : s % 2 = 0 ∨ 2 * s * b ≠ 2 * a + b ∧ 2 * a ≠ 2 * s * b + b) :
    roundHalfEven a b = s := by
  have hmod := Nat.mod_lt a hb
  have hsplit := Nat.div_add_mod a b
  unfold roundHalfEven
  generalize a / b = q at hsplit ⊢
  generalize a % b = r at hsplit hmod ⊢
  subst hsplit
  have hle : q ≤ s := by
    by_contra hlt
    have hmul : b * (s + 1) ≤ b * q := Nat.mul_le_mul_left b (by omega)
    nlinarith
  have hge : s ≤ q + 1 := by
    by_contra hlt
    have hmul : b * (q + 2) ≤ b * s := Nat.mul_le_mul_left b (by omega)
    nlinarith
  simp only [Bool.or_eq_true, Bool.and_eq_true, decide_eq_true_eq, beq_iff_eq]
  -- the integer is the quotient or the one after it
  obtain rfl | rfl : s = q ∨ s = q + 1 := by omega
  · have hhalf : 2 * r ≤ b := by nlinarith
    rw [if_neg]
    rintro (hmore | ⟨hsame, hodd⟩)
    · omega
    · rcases heven with heven | ⟨-, hne⟩
      · omega
      · exact hne (by nlinarith)
  · have hhalf : b ≤ 2 * r := by nlinarith
    rw [if_pos]
    by_cases hsame : 2 * r = b
    · refine .inr ⟨hsame, ?_⟩
      rcases heven with heven | ⟨hne, -⟩
      · omega
      · exact absurd (by nlinarith) hne
    · exact .inl (by omega)

theorem roundHalfEven_eq {a b s : Nat} (hb : 0 < b) (h : RoundsTo s (ratio a b)) :
    roundHalfEven a b = s := by
  obtain ⟨hlow, hhigh, htie⟩ := h
  have hb' : (0 : ℚ) < b := Nat.cast_pos.2 hb
  refine roundHalfEven_of_le hb ?_ ?_ (htie.imp_right fun h => ⟨fun heq => ?_, fun heq => ?_⟩)
  · rw [ratio, le_div_iff₀ hb'] at hlow
    have hle : (2 : ℚ) * s * b ≤ 2 * a + b := by linarith
    exact_mod_cast hle
  · rw [ratio, div_le_iff₀ hb'] at hhigh
    have hle : (2 : ℚ) * a ≤ 2 * s * b + b := by linarith
    exact_mod_cast hle
  · have heq' : (2 : ℚ) * s * b = 2 * a + b := by exact_mod_cast heq
    rw [ratio, lt_div_iff₀ hb'] at h
    linarith [h.1]
  · have heq' : (2 : ℚ) * a = 2 * s * b + b := by exact_mod_cast heq
    rw [ratio, div_lt_iff₀ hb'] at h
    linarith [h.2]

theorem roundHalfEven_scaled {num den s : Nat} {q : ℤ} (hden : 0 < den)
    (h : RoundsTo s (ratio num den / 2 ^ q)) :
    (if 0 ≤ q then roundHalfEven num (den * twoTo q.toNat)
      else roundHalfEven (num * twoTo (-q).toNat) den) = s := by
  rw [← ratio_scaled] at h
  split
  · rename_i hq
    rw [if_pos hq] at h
    exact roundHalfEven_eq (Nat.mul_pos hden (Nat.two_pow_pos _)) h
  · rename_i hq
    rw [if_neg hq] at h
    exact roundHalfEven_eq hden h

/-! ## Words -/

/-- A number lies in the interval of numbers that are nearest to `s * 2 ^ t`. Below a power of two
the neighbour is half as far away, except at the end of the range. -/
def Near (s : Nat) (t : ℤ) (v : ℚ) : Prop :=
  let below : ℚ := if s = 0x10000000000000 ∧ t ≠ -1074 then 1 / 4 else 1 / 2
  (s - below) * 2 ^ t ≤ v ∧ v ≤ (s + 1 / 2) * 2 ^ t ∧
    (s % 2 = 0 ∨ (s - below) * 2 ^ t < v ∧ v < (s + 1 / 2) * 2 ^ t)

/-- A significand and an exponent of a finite word other than zero. -/
structure Finite (s : Nat) (t : ℤ) : Prop where
  pos : 0 < s
  lt : s < 0x20000000000000
  least : -1074 ≤ t
  normal : t = -1074 ∨ 0x10000000000000 ≤ s

section Near

variable {s : Nat} {t : ℤ} {v : ℚ}

theorem Near.pos (h : Near s t v) (hs : 0 < s) : 0 < v := by
  have hs' : (1 : ℚ) ≤ s := by exact_mod_cast hs
  refine lt_of_lt_of_le (mul_pos ?_ (by positivity)) h.1
  split <;> linarith

theorem Near.roundsTo (h : Near s t v) : RoundsTo s (v / 2 ^ t) := by
  obtain ⟨hlow, hhigh, htie⟩ := h
  have hunit : (0 : ℚ) < 2 ^ t := by positivity
  have hbelow : (if s = 0x10000000000000 ∧ t ≠ -1074 then (1 / 4 : ℚ) else 1 / 2) ≤ 1 / 2 := by
    split <;> norm_num
  rw [← le_div_iff₀ hunit] at hlow
  rw [← div_le_iff₀ hunit] at hhigh
  rw [← lt_div_iff₀ hunit, ← div_lt_iff₀ hunit] at htie
  exact ⟨by linarith, hhigh, htie.imp_right fun h => ⟨by linarith [h.1], h.2⟩⟩

/-- Just below a power of two the last place is half as large. -/
theorem Near.roundsTo_finer (h : Near 0x10000000000000 t v) (ht : t ≠ -1074)
    (hless : v < 2 ^ (t + 52)) : RoundsTo 0x20000000000000 (v / 2 ^ (t - 1)) := by
  have hlow := h.1
  have hunit : (0 : ℚ) < 2 ^ (t - 1) := by positivity
  have hdouble : (2 : ℚ) ^ t = 2 * 2 ^ (t - 1) := by
    rw [zpow_sub_one₀ two_ne_zero]
    ring
  rw [if_pos ⟨rfl, ht⟩, hdouble] at hlow
  rw [zpow_add₀ two_ne_zero, hdouble] at hless
  push_cast at hlow
  norm_num at hless
  refine ⟨?_, ?_, .inl (by norm_num)⟩
  · rw [le_div_iff₀ hunit]
    push_cast
    linarith
  · rw [div_le_iff₀ hunit]
    push_cast
    linarith

end Near

theorem nearestMagnitude_of_place {num den s : Nat} {q : ℤ} (hnum : 0 < num) (hden : 0 < den)
    (hq : max (floorLog2 num den - 52) (-1074) = q) (h : RoundsTo s (ratio num den / 2 ^ q)) :
    nearestMagnitude num den = min ((q + 1074).toNat * 0x10000000000000 + s) infinityMagnitude := by
  unfold nearestMagnitude
  rw [if_neg hnum.ne']
  dsimp only
  rw [hq, roundHalfEven_scaled hden h]

/-- What is near to a finite word is rounded to it, or to an infinity if the word is one. -/
theorem nearestMagnitude_eq {num den s : Nat} {t : ℤ} (hden : 0 < den) (h : Finite s t)
    (hnear : Near s t (ratio num den)) : nearestMagnitude num den =
      min ((t + 1074).toNat * 0x10000000000000 + s) infinityMagnitude := by
  obtain ⟨hpos, hlt, hleast, hnormal⟩ := h
  have hnum : 0 < num := num_pos_of_ratio (hnear.pos hpos)
  have hunit : (0 : ℚ) < 2 ^ t := by positivity
  have hpower : ∀ n : ℤ, (2 : ℚ) ^ (t + n) = 2 ^ n * 2 ^ t := fun n => by
    rw [zpow_add₀ two_ne_zero, mul_comm]
  have hupper : floorLog2 num den < t + 53 := by
    have hs : (s : ℚ) ≤ 0x1FFFFFFFFFFFFF := by exact_mod_cast (by omega : s ≤ 0x1FFFFFFFFFFFFF)
    refine floorLog2_lt hnum hden (hnear.2.1.trans_lt ?_)
    rw [hpower]
    refine mul_lt_mul_of_pos_right ?_ hunit
    norm_num
    linarith
  by_cases hfull : (2 : ℚ) ^ (t + 52) ≤ ratio num den ∨ t = -1074
  · -- the last place of the word is the one to which the quotient is rounded
    refine nearestMagnitude_of_place hnum hden ?_ hnear.roundsTo
    rcases hfull with hfull | rfl
    · have hlower := le_floorLog2 hnum hden hfull
      omega
    · omega
  · -- the quotient lies just below a power of two
    rw [not_or, not_le] at hfull
    obtain ⟨hless, ht⟩ := hfull
    have hlow := hnear.1
    have hexact : s = 0x10000000000000 := by
      have hge := hnormal.resolve_left ht
      have hless' := hnear.roundsTo.1.trans_lt ((div_lt_iff₀ hunit).2 (hpower 52 ▸ hless))
      norm_num at hless'
      have hle : (s : ℚ) < 0x10000000000001 := by linarith
      have hle' : s < 0x10000000000001 := by exact_mod_cast hle
      omega
    subst hexact
    have hlower : t + 51 ≤ floorLog2 num den := by
      refine le_floorLog2 hnum hden (le_trans ?_ hlow)
      rw [hpower, if_pos ⟨rfl, ht⟩]
      refine mul_le_mul_of_nonneg_right ?_ hunit.le
      norm_num
    have hfloor := floorLog2_lt hnum hden hless
    have hcarry : (t - 1 + 1074).toNat * 0x10000000000000 + 0x20000000000000 =
        (t + 1074).toNat * 0x10000000000000 + 0x10000000000000 := by omega
    rw [nearestMagnitude_of_place hnum hden (by omega) (hnear.roundsTo_finer ht hless), hcarry]

/-! ## The fields of a word -/

variable {x : Binary64}

theorem toNat_bits (x : Binary64) : x.bits.toNat =
    (if x.isNegative then 0x8000000000000000 else 0) +
      (x.biasedExponent * 0x10000000000000 + x.fraction) := by
  have hlt := x.bits.toNat_lt
  unfold isNegative biasedExponent fraction
  split
  · rename_i hsign
    have hsign := of_decide_eq_true hsign
    omega
  · rename_i hsign
    rw [decide_eq_true_eq] at hsign
    omega

theorem fraction_lt (x : Binary64) : x.fraction < 0x10000000000000 :=
  Nat.mod_lt _ (by norm_num)

theorem biasedExponent_lt (x : Binary64) : x.biasedExponent < 0x800 :=
  Nat.mod_lt _ (by norm_num)

/-- A word is made of its sign and its other bits. -/
theorem ofMagnitude_eq (x : Binary64) :
    ofMagnitude x.isNegative (x.biasedExponent * 0x10000000000000 + x.fraction) = x := by
  unfold ofMagnitude
  rw [← toNat_bits, UInt64.ofNat_toNat]

theorem infinity_eq (h : x.isInfinite = true) : infinity x.isNegative = x := by
  simp only [isInfinite, Bool.and_eq_true, beq_iff_eq] at h
  have hword := ofMagnitude_eq x
  rw [h.1, h.2] at hword
  exact hword

/-- The other bits count the words from zero. -/
theorem magnitude_eq (x : Binary64) : x.biasedExponent * 0x10000000000000 + x.fraction =
    (x.exponent + 1074).toNat * 0x10000000000000 + x.significand := by
  unfold exponent significand
  split
  · rename_i hzero
    rw [hzero]
    simp
  · rename_i hbiased
    have hplace : ((x.biasedExponent : ℤ) - 1075 + 1074).toNat = x.biasedExponent - 1 := by omega
    rw [hplace]
    omega

theorem finite_word (h : 0 < x.significand) : Finite x.significand x.exponent := by
  have hfraction := x.fraction_lt
  refine ⟨h, ?_, ?_, ?_⟩
  · unfold significand
    split <;> omega
  · unfold exponent
    split <;> omega
  · unfold exponent significand
    split
    · exact .inl rfl
    · exact .inr (Nat.le_add_right _ _)

theorem nearest_zero (den : Nat) (h : x.significand = 0) :
    nearest x.isNegative 0 den = x := by
  have hmagnitude := x.magnitude_eq
  have hzero : x.biasedExponent = 0 := by
    unfold significand at h
    split at h
    · assumption
    · omega
  have hword := ofMagnitude_eq x
  rw [hmagnitude, h] at hword
  unfold exponent at hword
  rw [if_pos hzero] at hword
  exact hword

/-- A finite word is the nearest one to all numbers of its interval. -/
theorem nearest_eq {num den : Nat} (hden : 0 < den) (h : 0 < x.significand)
    (hfinite : x.biasedExponent < 2047)
    (hnear : Near x.significand x.exponent (ratio num den)) :
    nearest x.isNegative num den = x := by
  have hfraction := x.fraction_lt
  have hless : x.biasedExponent * 0x10000000000000 + x.fraction ≤ infinityMagnitude := by
    unfold infinityMagnitude
    omega
  unfold nearest
  rw [nearestMagnitude_eq hden (finite_word h) hnear, ← magnitude_eq, min_eq_left hless,
    ofMagnitude_eq]

end Equijoin.Binary64
