import Equijoin.Proofs.Number.Values

/-! # Integers as words

A word has 53 bits for an integer. What is longer is rounded to them.

* `rounded`: the integer that is left. Up to `2 ^ 53` nothing is lost.
* `value_of_place`: the number of a word that is given by its last place and what it counts there.
* `nearest_integer`: the word nearest to an integer stands for the rounded integer.
-/

set_option autoImplicit false

namespace Equijoin.Binary64

/-! ## Rounding to 53 bits -/

/-- The integer with at most 53 bits, and zeros behind them, that is nearest to `n`. A tie goes to
the even one. -/
def rounded (n : Nat) : Nat :=
  roundHalfEven n (2 ^ (n.log2 - 52)) * 2 ^ (n.log2 - 52)

variable {n : Nat}

theorem roundHalfEven_one (n : Nat) : roundHalfEven n 1 = n := by
  unfold roundHalfEven
  simp [Nat.mod_one]

theorem roundHalfEven_bounds (num den : Nat) :
    num / den ≤ roundHalfEven num den ∧ roundHalfEven num den ≤ num / den + 1 := by
  unfold roundHalfEven
  dsimp only
  split
  · exact ⟨Nat.le_succ _, le_rfl⟩
  · exact ⟨le_rfl, Nat.le_succ _⟩

theorem rounded_of_log2_le (h : n.log2 ≤ 52) : rounded n = n := by
  unfold rounded
  rw [Nat.sub_eq_zero_of_le h, pow_zero, roundHalfEven_one, mul_one]

/-- Integers of 53 bits are kept. -/
theorem rounded_eq_self (h : n ≤ 2 ^ 53) : rounded n = n := by
  rcases h.lt_or_eq with hlt | rfl
  · refine rounded_of_log2_le ?_
    by_cases hzero : n = 0
    · rw [hzero]
      decide
    · have := (Nat.log2_lt hzero).2 hlt
      omega
  · decide

/-! ## Words by their last place -/

theorem toNat_ofMagnitude (negative : Bool) {k : Nat} (h : k < 2 ^ 63) :
    (ofMagnitude negative k).bits.toNat = (if negative then 2 ^ 63 else 0) + k := by
  unfold ofMagnitude
  rw [UInt64.toNat_ofNat']
  split <;> omega

theorem isNegative_ofMagnitude (negative : Bool) {k : Nat} (h : k < 2 ^ 63) :
    (ofMagnitude negative k).isNegative = negative := by
  unfold isNegative
  rw [toNat_ofMagnitude negative h]
  cases negative with
  | true => exact decide_eq_true (by rw [if_pos rfl]; omega)
  | false => exact decide_eq_false (by rw [if_neg Bool.false_ne_true]; omega)

theorem fields_ofMagnitude (negative : Bool) {biased fraction : Nat} (hbiased : biased < 2047)
    (hfraction : fraction < 2 ^ 52) :
    (ofMagnitude negative (biased * 2 ^ 52 + fraction)).biasedExponent = biased ∧
      (ofMagnitude negative (biased * 2 ^ 52 + fraction)).fraction = fraction := by
  unfold biasedExponent Binary64.fraction
  rw [toNat_ofMagnitude negative (by omega)]
  split <;> constructor <;> omega

theorem magnitude_ofMagnitude (negative : Bool) {biased fraction : Nat} (hpos : 0 < biased)
    (hbiased : biased < 2047) (hfraction : fraction < 2 ^ 52) :
    (ofMagnitude negative (biased * 2 ^ 52 + fraction)).magnitude =
      ((2 ^ 52 + fraction : Nat) : ℚ) * 2 ^ ((biased : ℤ) - 1075) := by
  obtain ⟨hexponent, hrest⟩ := fields_ofMagnitude negative hbiased hfraction
  unfold magnitude significand exponent
  rw [hexponent, hrest, if_neg hpos.ne', if_neg hpos.ne']
  rfl

/-- The word that counts `m` in its last place `2 ^ q`. A count of 54 bits carries into the next
place. -/
theorem value_of_place (negative : Bool) {q : ℤ} {m : Nat} (hq : -1074 ≤ q) (hq' : q ≤ 970)
    (hm : 2 ^ 52 ≤ m) (hm' : m ≤ 2 ^ 53) :
    (ofMagnitude negative ((q + 1074).toNat * 2 ^ 52 + m)).IsFinite ∧
      (ofMagnitude negative ((q + 1074).toNat * 2 ^ 52 + m)).value =
        if negative then -((m : ℚ) * 2 ^ q) else (m : ℚ) * 2 ^ q := by
  have hword : (q + 1074).toNat * 2 ^ 52 + m < 2 ^ 63 := by omega
  unfold value
  rw [isNegative_ofMagnitude negative hword]
  suffices h : (ofMagnitude negative ((q + 1074).toNat * 2 ^ 52 + m)).IsFinite ∧
      (ofMagnitude negative ((q + 1074).toNat * 2 ^ 52 + m)).magnitude = (m : ℚ) * 2 ^ q by
    rw [h.2]
    exact ⟨h.1, rfl⟩
  unfold IsFinite
  rcases hm'.lt_or_eq with hlt | rfl
  · obtain ⟨f, rfl⟩ := Nat.exists_eq_add_of_le hm
    have hfields : (q + 1074).toNat * 2 ^ 52 + (2 ^ 52 + f) =
        ((q + 1074).toNat + 1) * 2 ^ 52 + f := by ring
    have hbiased : (q + 1074).toNat + 1 < 2047 := by omega
    have hf : f < 2 ^ 52 := by omega
    have hplace : (((q + 1074).toNat + 1 : Nat) : ℤ) - 1075 = q := by omega
    rw [hfields, (fields_ofMagnitude negative hbiased hf).1,
      magnitude_ofMagnitude negative (Nat.succ_pos _) hbiased hf, hplace]
    exact ⟨hbiased.ne, rfl⟩
  · have hfields : (q + 1074).toNat * 2 ^ 52 + 2 ^ 53 = ((q + 1074).toNat + 2) * 2 ^ 52 + 0 := by
      ring
    have hbiased : (q + 1074).toNat + 2 < 2047 := by omega
    have hplace : (((q + 1074).toNat + 2 : Nat) : ℤ) - 1075 = q + 1 := by omega
    rw [hfields, (fields_ofMagnitude negative hbiased (by norm_num)).1,
      magnitude_ofMagnitude negative (Nat.succ_pos _) hbiased (by norm_num), hplace,
      zpow_add_one₀ two_ne_zero]
    refine ⟨hbiased.ne, ?_⟩
    push_cast
    ring

/-! ## Integers -/

theorem floorLog2_one (h : 0 < n) : floorLog2 n 1 = n.log2 := by
  unfold floorLog2
  have hone : ((Nat.log2 1 : Nat) : ℤ) = 0 := rfl
  rw [hone, sub_zero]
  refine if_pos ?_
  rw [if_pos (Int.natCast_nonneg _), Int.toNat_natCast, one_mul]
  exact Nat.log2_self_le h.ne'

theorem nearestMagnitude_integer (h : 0 < n) (hn : n < 2 ^ 64) :
    ∃ (q : ℤ) (m : Nat), -1074 ≤ q ∧ q ≤ 970 ∧ 2 ^ 52 ≤ m ∧ m ≤ 2 ^ 53 ∧
      (m : ℚ) * 2 ^ q = rounded n ∧
      nearestMagnitude n 1 = (q + 1074).toNat * 2 ^ 52 + m := by
  have hlog : n.log2 < 64 := (Nat.log2_lt h.ne').2 hn
  have hlow : 2 ^ n.log2 ≤ n := Nat.log2_self_le h.ne'
  have hhigh : n < 2 ^ (n.log2 + 1) := Nat.lt_log2_self
  have hplace : max (floorLog2 n 1 - 52) (-1074) = (n.log2 : ℤ) - 52 := by
    rw [floorLog2_one h]
    omega
  have hbelow : ∀ {q : ℤ} {m : Nat}, q ≤ 970 → m ≤ 2 ^ 53 →
      (q + 1074).toNat * 0x10000000000000 + m ≤ infinityMagnitude := by
    intro q m hq hm
    unfold infinityMagnitude
    omega
  unfold nearestMagnitude
  rw [if_neg h.ne', hplace]
  dsimp only
  by_cases hlong : 52 ≤ n.log2
  · obtain ⟨k, hk⟩ := Nat.exists_eq_add_of_le hlong
    have hexact : (n.log2 : ℤ) - 52 = (k : ℤ) := by omega
    have hunit : (0 : Nat) < 2 ^ k := by positivity
    have hround : rounded n = roundHalfEven n (2 ^ k) * 2 ^ k := by
      unfold rounded
      rw [hk, Nat.add_sub_cancel_left]
    rw [hk] at hlow hhigh
    have hdown : 2 ^ 52 ≤ n / 2 ^ k := (Nat.le_div_iff_mul_le hunit).2 (by rwa [← pow_add])
    have hup : n / 2 ^ k < 2 ^ 53 := by
      refine (Nat.div_lt_iff_lt_mul hunit).2 ?_
      rwa [← pow_add, show 53 + k = 52 + k + 1 by omega]
    obtain ⟨hleast, hmost⟩ := roundHalfEven_bounds n (2 ^ k)
    rw [hexact, if_pos (Int.natCast_nonneg k), Int.toNat_natCast, one_mul]
    refine ⟨k, roundHalfEven n (2 ^ k), by omega, by omega, by omega, by omega, ?_,
      min_eq_left (hbelow (by omega) ?_)⟩
    · rw [hround]
      push_cast
      rw [zpow_natCast]
    · exact hmost.trans hup
  · obtain ⟨k, hk⟩ := Nat.exists_eq_add_of_lt (not_le.1 hlong)
    have hexact : (n.log2 : ℤ) - 52 = -((k + 1 : Nat) : ℤ) := by omega
    have hneg : ¬ (0 : ℤ) ≤ -((k + 1 : Nat) : ℤ) := by omega
    rw [hexact, if_neg hneg, neg_neg, Int.toNat_natCast, roundHalfEven_one]
    have hdown : 2 ^ 52 ≤ n * twoTo (k + 1) := by
      have := Nat.mul_le_mul_right (2 ^ (k + 1)) hlow
      rwa [← pow_add, show n.log2 + (k + 1) = 52 by omega] at this
    have hup : n * twoTo (k + 1) ≤ 2 ^ 53 := by
      have := Nat.mul_le_mul_right (2 ^ (k + 1)) hhigh.le
      rwa [← pow_add, show n.log2 + 1 + (k + 1) = 53 by omega] at this
    refine ⟨-((k + 1 : Nat) : ℤ), n * twoTo (k + 1), by omega, by omega, hdown, hup, ?_,
      min_eq_left (hbelow (by omega) hup)⟩
    rw [rounded_of_log2_le (by omega), Nat.cast_mul, twoTo_cast, mul_assoc, zpow_neg,
      mul_inv_cancel₀ (by positivity), mul_one]

/-- The word nearest to an integer stands for the rounded integer. -/
theorem nearest_integer (negative : Bool) (h : n < 2 ^ 64) :
    (nearest negative n 1).IsFinite ∧
      (nearest negative n 1).value = if negative then -(rounded n : ℚ) else (rounded n : ℚ) := by
  rcases Nat.eq_zero_or_pos n with rfl | hpos
  · have hzero : rounded 0 = 0 := by decide
    rw [hzero]
    cases negative with
    | true => exact ⟨by unfold IsFinite; decide, by rw [value_eq_zero.2 (by decide)]; simp⟩
    | false => exact ⟨by unfold IsFinite; decide, by rw [value_eq_zero.2 (by decide)]; simp⟩
  · obtain ⟨q, m, hq, hq', hm, hm', hvalue, hword⟩ := nearestMagnitude_integer hpos h
    unfold nearest
    rw [hword, ← hvalue]
    exact value_of_place negative hq hq' hm hm'

end Equijoin.Binary64
