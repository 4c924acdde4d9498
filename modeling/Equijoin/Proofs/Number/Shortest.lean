import Mathlib.Tactic.Ring
import Equijoin.Number.Shortest
import Equijoin.Proofs.Number.Rounding

/-! # The shortest decimal is near

The decimal that is printed for a finite word lies in the interval of the word.

* `decimalPoint_spec`: the number of digits before the point.
* `insideAt_iff`: a decimal of some digits lies in the interval of a word.
* `atDigits?_cases`, `atDigits?_seventeen`: what is found is in the interval, and with seventeen
  digits something is found.
* `shortest_near`: the decimal of a word is near to it.
-/

set_option autoImplicit false

namespace Equijoin.Binary64

variable {x : Binary64} {tie : Tie}

/-! ## Powers of ten -/

theorem tenTo_toNat {e : ℤ} (h : 0 ≤ e) : ((tenTo e.toNat : Nat) : ℚ) = (10 : ℚ) ^ e := by
  obtain ⟨n, rfl⟩ := Int.eq_ofNat_of_zero_le h
  rw [Int.toNat_natCast, zpow_natCast]
  exact Nat.cast_pow 10 n

/-- A number has as many digits as powers of ten fit below it. -/
theorem toDigits_bounds {n : Nat} (h : 0 < n) :
    10 ^ ((Nat.toDigits 10 n).length - 1) ≤ n ∧ n < 10 ^ (Nat.toDigits 10 n).length := by
  have hpos : 0 < (Nat.toDigits 10 n).length := Nat.length_toDigits_pos
  refine ⟨?_, (Nat.length_toDigits_le_iff (by norm_num) hpos).1 le_rfl⟩
  by_cases hone : (Nat.toDigits 10 n).length = 1
  · rw [hone]
    exact h
  · refine le_of_not_gt fun hlt => ?_
    have hshort := (Nat.length_toDigits_le_iff (b := 10) (by norm_num) (by omega)).2 hlt
    omega

theorem decimalPoint_spec {num den : Nat} (hnum : 0 < num) (hden : 0 < den) :
    (10 : ℚ) ^ (decimalPoint num den - 1) ≤ ratio num den ∧
      ratio num den < 10 ^ decimalPoint num den := by
  have hden' : (0 : ℚ) < den := Nat.cast_pos.2 hden
  unfold decimalPoint
  split
  · rename_i hle
    obtain ⟨hlow, hhigh⟩ := toDigits_bounds (Nat.div_pos hle hden)
    have hpos : 0 < (Nat.toDigits 10 (num / den)).length := Nat.length_toDigits_pos
    generalize (Nat.toDigits 10 (num / den)).length = k at hlow hhigh hpos
    rw [← Nat.cast_pred hpos, zpow_natCast, zpow_natCast, ratio, le_div_iff₀ hden',
      div_lt_iff₀ hden']
    constructor
    · exact_mod_cast (Nat.le_div_iff_mul_le hden).1 hlow
    · exact_mod_cast (Nat.div_lt_iff_lt_mul hden).1 hhigh
  · rename_i hlt
    have hpos : 0 < (den - 1) / num := Nat.div_pos (by omega) hnum
    obtain ⟨hlow, hhigh⟩ := toDigits_bounds hpos
    have hlength : 0 < (Nat.toDigits 10 ((den - 1) / num)).length := Nat.length_toDigits_pos
    dsimp only
    generalize (Nat.toDigits 10 ((den - 1) / num)).length = k at hlow hhigh hlength
    have hlow' := (Nat.le_div_iff_mul_le hnum).1 hlow
    have hhigh' := (Nat.div_lt_iff_lt_mul hnum).1 hhigh
    have hless : 10 ^ (k - 1) * num < den := by omega
    have hmore : den ≤ 10 ^ k * num := by omega
    have hfirst : (1 : ℤ) - k - 1 = -(k : ℤ) := by omega
    have hsecond : (1 : ℤ) - k = -((k - 1 : ℕ) : ℤ) := by omega
    rw [hfirst, hsecond, zpow_neg, zpow_neg, zpow_natCast, zpow_natCast, ratio]
    constructor
    · rw [le_div_iff₀ hden', ← div_eq_inv_mul, div_le_iff₀ (by positivity), mul_comm]
      exact_mod_cast hmore
    · rw [div_lt_iff₀ hden', ← div_eq_inv_mul, lt_div_iff₀ (by positivity), mul_comm]
      exact_mod_cast hless

/-! ## Decimals of some digits -/

/-- The last place of a decimal, in units of a power of two, is a quotient of two numbers. -/
def gridStep (place two : ℤ) : Nat :=
  (if 0 ≤ place then tenTo place.toNat else 1) * (if two < 0 then twoTo (-two).toNat else 1)

/-- The second of the two numbers. -/
def gridUnit (place two : ℤ) : Nat :=
  (if place < 0 then tenTo (-place).toNat else 1) * (if 0 ≤ two then twoTo two.toNat else 1)

theorem gridUnit_pos (place two : ℤ) : 0 < gridUnit place two := by
  refine Nat.mul_pos ?_ ?_
  · split
    · exact Nat.pow_pos (by norm_num)
    · exact Nat.one_pos
  · split
    · exact Nat.two_pow_pos _
    · exact Nat.one_pos

theorem gridStep_pos (place two : ℤ) : 0 < gridStep place two := by
  refine Nat.mul_pos ?_ ?_
  · split
    · exact Nat.pow_pos (by norm_num)
    · exact Nat.one_pos
  · split
    · exact Nat.two_pow_pos _
    · exact Nat.one_pos

theorem gridStep_mul (place two : ℤ) :
    (gridStep place two : ℚ) * 2 ^ two = gridUnit place two * 10 ^ place := by
  have hten : ((if 0 ≤ place then tenTo place.toNat else 1 : Nat) : ℚ) =
      ((if place < 0 then tenTo (-place).toNat else 1 : Nat) : ℚ) * 10 ^ place := by
    by_cases h : 0 ≤ place
    · rw [if_pos h, if_neg (by omega), tenTo_toNat h, Nat.cast_one, one_mul]
    · rw [if_neg h, if_pos (by omega), tenTo_toNat (by omega), ← zpow_add₀ (by norm_num),
        neg_add_cancel, zpow_zero, Nat.cast_one]
  have htwo : ((if two < 0 then twoTo (-two).toNat else 1 : Nat) : ℚ) * 2 ^ two =
      ((if 0 ≤ two then twoTo two.toNat else 1 : Nat) : ℚ) := by
    by_cases h : 0 ≤ two
    · rw [if_pos h, if_neg (by omega), twoTo_toNat h, Nat.cast_one, one_mul]
    · rw [if_neg h, if_pos (by omega), twoTo_toNat (by omega), ← zpow_add₀ two_ne_zero,
        neg_add_cancel, zpow_zero, Nat.cast_one]
  unfold gridStep gridUnit
  rw [Nat.cast_mul, Nat.cast_mul, mul_assoc, htwo, hten]
  ring

/-- The decimals with a last place that are next to a word, and in its interval. -/
def downAt (x : Binary64) (place : ℤ) : Nat :=
  4 * x.significand * gridUnit place (x.exponent - 2) / gridStep place (x.exponent - 2)

/-- A decimal lies in the interval of a word, as it is found out. -/
def insideAt (x : Binary64) (place : ℤ) (d : Nat) : Bool :=
  let low := x.roundingInterval.1
  let high := x.roundingInterval.2.2
  let unit := gridUnit place (x.exponent - 2)
  let step := gridStep place (x.exponent - 2)
  if x.significand % 2 == 0 then low * unit ≤ d * step && d * step ≤ high * unit
  else low * unit < d * step && d * step < high * unit

/-- The one of two decimals next to each other that is taken, by which of them lie in the interval. -/
def nextTo (below above upper : Bool) (down : Nat) (place : ℤ) : Option (Nat × ℤ) :=
  match below, above with
  | true, true => some (if upper then down + 1 else down, place)
  | true, false => some (down, place)
  | false, true => some (down + 1, place)
  | false, false => none

/-- One of the decimals next to a word is found if one of them lies in its interval. -/
theorem atDigits?_cases (tie : Tie) (x : Binary64) (point : ℤ) (count : Nat) :
    (∃ d, atDigits? tie x point count = some (d, point - count) ∧
      x.insideAt (point - count) d = true) ∨
    atDigits? tie x point count = none ∧
      x.insideAt (point - count) (x.downAt (point - count)) = false ∧
        x.insideAt (point - count) (x.downAt (point - count) + 1) = false := by
  generalize hplace : point - (count : ℤ) = place
  have hfound : ∃ upper, atDigits? tie x point count = nextTo (x.insideAt place (x.downAt place))
      (x.insideAt place (x.downAt place + 1)) upper (x.downAt place) place := by
    subst hplace
    exact ⟨_, rfl⟩
  obtain ⟨upper, hfound⟩ := hfound
  rw [hfound]
  cases hdown : x.insideAt place (x.downAt place) with
  | true =>
    cases hup : x.insideAt place (x.downAt place + 1) with
    | true =>
      cases upper with
      | true => exact .inl ⟨_, rfl, hup⟩
      | false => exact .inl ⟨_, rfl, hdown⟩
    | false => exact .inl ⟨_, rfl, hdown⟩
  | false =>
    cases hup : x.insideAt place (x.downAt place + 1) with
    | true => exact .inl ⟨_, rfl, hup⟩
    | false => exact .inr ⟨rfl, rfl, rfl⟩

theorem gridUnit_scaled (a : Nat) (place two : ℤ) :
    ((a * gridUnit place two : ℕ) : ℚ) * 2 ^ two = a * 2 ^ two * gridUnit place two := by
  rw [Nat.cast_mul, mul_right_comm]

theorem gridStep_scaled (d : Nat) (place two : ℤ) :
    ((d * gridStep place two : ℕ) : ℚ) * 2 ^ two = d * 10 ^ place * gridUnit place two := by
  rw [Nat.cast_mul, mul_assoc, gridStep_mul, mul_assoc, mul_comm (10 ^ place)]

theorem grid_le_iff (a d : Nat) (place two : ℤ) : a * gridUnit place two ≤ d * gridStep place two ↔
    (a : ℚ) * 2 ^ two ≤ d * 10 ^ place := by
  have hunit : (0 : ℚ) < gridUnit place two := Nat.cast_pos.2 (gridUnit_pos place two)
  have htwo : (0 : ℚ) < 2 ^ two := by positivity
  rw [← Nat.cast_le (α := ℚ), ← mul_le_mul_iff_left₀ htwo, gridUnit_scaled, gridStep_scaled,
    mul_le_mul_iff_left₀ hunit]

theorem le_grid_iff (a d : Nat) (place two : ℤ) : d * gridStep place two ≤ a * gridUnit place two ↔
    (d : ℚ) * 10 ^ place ≤ a * 2 ^ two := by
  have hunit : (0 : ℚ) < gridUnit place two := Nat.cast_pos.2 (gridUnit_pos place two)
  have htwo : (0 : ℚ) < 2 ^ two := by positivity
  rw [← Nat.cast_le (α := ℚ), ← mul_le_mul_iff_left₀ htwo, gridUnit_scaled, gridStep_scaled,
    mul_le_mul_iff_left₀ hunit]

theorem power_of_two_iff (x : Binary64) : (x.fraction = 0 ∧ 1 < x.biasedExponent) ↔
    x.significand = 0x10000000000000 ∧ x.exponent ≠ -1074 := by
  have hfraction := x.fraction_lt
  unfold significand exponent
  split <;> omega

/-- The ends of the interval of a word, four times over. -/
theorem roundingInterval_ends (h : 0 < x.significand) :
    (x.roundingInterval.1 : ℚ) = 4 * (x.significand -
      if x.significand = 0x10000000000000 ∧ x.exponent ≠ -1074 then 1 / 4 else 1 / 2) ∧
    (x.roundingInterval.2.2 : ℚ) = 4 * (x.significand + 1 / 2) := by
  have hpower := power_of_two_iff x
  unfold roundingInterval
  simp only [Bool.and_eq_true, decide_eq_true_eq, hpower]
  constructor
  · split
    · rw [Nat.cast_sub (by omega)]
      push_cast
      ring
    · rw [Nat.cast_sub (by omega)]
      push_cast
      ring
  · push_cast
    ring

theorem insideAt_iff (h : 0 < x.significand) {place : ℤ} {d : Nat} :
    x.insideAt place d = true ↔ Near x.significand x.exponent (d * 10 ^ place) := by
  obtain ⟨hlow, hhigh⟩ := roundingInterval_ends h
  have hquarter : (2 : ℚ) ^ x.exponent = 4 * 2 ^ (x.exponent - 2) := by
    rw [zpow_sub₀ two_ne_zero]
    norm_num
    ring
  have hlow' : ∀ below : ℚ, (x.roundingInterval.1 : ℚ) = 4 * (x.significand - below) →
      (x.significand - below) * 2 ^ x.exponent =
        x.roundingInterval.1 * 2 ^ (x.exponent - 2) := by
    intro below hbelow
    rw [hbelow, hquarter]
    ring
  have hhigh' : ((x.significand : ℚ) + 1 / 2) * 2 ^ x.exponent =
      x.roundingInterval.2.2 * 2 ^ (x.exponent - 2) := by
    rw [hhigh, hquarter]
    ring
  unfold Near
  dsimp only
  rw [hlow' _ hlow, hhigh', ← grid_le_iff, ← le_grid_iff, ← not_le, ← le_grid_iff, ← not_le,
    ← grid_le_iff, not_le, not_le]
  unfold insideAt
  dsimp only
  split
  · rename_i heven
    rw [beq_iff_eq] at heven
    simp [heven]
  · rename_i hodd
    rw [beq_iff_eq] at hodd
    simp only [Bool.and_eq_true, decide_eq_true_eq, hodd, false_or]
    exact ⟨fun h => ⟨h.1.le, h.2.le, h⟩, fun h => h.2.2⟩

/-! ## Enough digits -/

/-- The number that a finite word stands for, without its sign. -/
def magnitude (x : Binary64) : ℚ := x.significand * 2 ^ x.exponent

theorem downAt_spec (x : Binary64) (place : ℤ) :
    (x.downAt place : ℚ) * 10 ^ place ≤ x.magnitude ∧
      x.magnitude < (x.downAt place + 1 : ℕ) * 10 ^ place := by
  have hquarter : x.magnitude = (4 * x.significand : ℕ) * 2 ^ (x.exponent - 2) := by
    unfold magnitude
    rw [zpow_sub₀ two_ne_zero]
    push_cast
    ring
  have hstep := gridStep_pos place (x.exponent - 2)
  rw [hquarter, ← le_grid_iff, ← not_le, ← le_grid_iff, not_le]
  unfold downAt
  refine ⟨Nat.div_mul_le_self _ _, ?_⟩
  rw [Nat.add_mul, one_mul]
  exact Nat.lt_div_mul_add hstep

theorem magnitudeRatio_eq (x : Binary64) :
    ratio x.magnitudeRatio.1 x.magnitudeRatio.2 = x.magnitude := by
  unfold magnitudeRatio magnitude
  split
  · rename_i h
    rw [ratio, Nat.cast_mul, twoTo_toNat h, Nat.cast_one, div_one]
  · rename_i h
    rw [ratio, twoTo_toNat (by omega), zpow_neg, div_inv_eq_mul]

theorem magnitudeRatio_pos (h : 0 < x.significand) :
    0 < x.magnitudeRatio.1 ∧ 0 < x.magnitudeRatio.2 := by
  unfold magnitudeRatio
  split
  · exact ⟨Nat.mul_pos h (Nat.two_pow_pos _), Nat.one_pos⟩
  · exact ⟨h, Nat.two_pow_pos _⟩

/-- Of two numbers around a word that are close together, one lies in its interval. -/
theorem near_of_fine {s : Nat} {t : ℤ} {down gap : ℚ} (h : Finite s t)
    (hfine : gap ≤ s * 10 ^ (-16 : ℤ) * 2 ^ t) (hbelow : down ≤ s * 2 ^ t)
    (habove : s * 2 ^ t < down + gap) : Near s t down ∨ Near s t (down + gap) := by
  have hunit : (0 : ℚ) < 2 ^ t := by positivity
  have hcount : (s : ℚ) ≤ 0x1FFFFFFFFFFFFF := by
    exact_mod_cast (by have := h.lt; omega : s ≤ 0x1FFFFFFFFFFFFF)
  by_contra hnone
  rw [not_or] at hnone
  -- both numbers are outside, so that the interval fits between them
  have hlow : down ≤ (s - if s = 0x10000000000000 ∧ t ≠ -1074 then 1 / 4 else 1 / 2) * 2 ^ t := by
    refine le_of_not_gt fun hlow => hnone.1 ?_
    have hhigh : down < (s + 1 / 2) * 2 ^ t := by nlinarith
    exact ⟨hlow.le, hhigh.le, .inr ⟨hlow, hhigh⟩⟩
  have hhigh : (s + 1 / 2) * 2 ^ t ≤ down + gap := by
    refine le_of_not_gt fun hhigh => hnone.2 ?_
    have hlow : (s - if s = 0x10000000000000 ∧ t ≠ -1074 then 1 / 4 else 1 / 2) * (2 : ℚ) ^ t <
        down + gap := by
      split <;> nlinarith
    exact ⟨hlow.le, hhigh.le, .inr ⟨hlow, hhigh⟩⟩
  rw [zpow_neg, zpow_ofNat] at hfine
  split at hlow
  · rename_i hpower
    rw [hpower.1] at hfine hlow hhigh
    norm_num at hfine hlow hhigh
    nlinarith
  · nlinarith

/-- With seventeen digits one of the decimals next to a word lies in its interval. -/
theorem atDigits?_seventeen (tie : Tie) {point : ℤ} (h : 0 < x.significand)
    (hpoint : (10 : ℚ) ^ (point - 1) ≤ x.magnitude) :
    ∃ d, atDigits? tie x point 17 = some (d, point - 17) ∧
      Near x.significand x.exponent (d * 10 ^ (point - 17)) := by
  rcases atDigits?_cases tie x point 17 with ⟨d, hd, hinside⟩ | ⟨-, hdown, hup⟩
  · exact ⟨d, hd, (insideAt_iff h).1 hinside⟩
  · exfalso
    rw [← Bool.not_eq_true, insideAt_iff h] at hdown hup
    obtain ⟨hbelow, habove⟩ := downAt_spec x (point - (17 : ℕ))
    rw [Nat.cast_add, Nat.cast_one, add_mul, one_mul] at habove hup
    have hfine : (10 : ℚ) ^ (point - (17 : ℕ)) ≤
        x.significand * 10 ^ (-16 : ℤ) * 2 ^ x.exponent :=
      calc (10 : ℚ) ^ (point - (17 : ℕ)) = 10 ^ (point - 1) * 10 ^ (-16 : ℤ) := by
            rw [← zpow_add₀ (by norm_num)]
            congr 1
            omega
        _ ≤ x.magnitude * 10 ^ (-16 : ℤ) := by gcongr
        _ = x.significand * 10 ^ (-16 : ℤ) * 2 ^ x.exponent := mul_right_comm _ _ _
    exact (near_of_fine (finite_word h) hfine hbelow habove).elim hdown hup

theorem firstEnough_mem {point : ℤ} {counts : List Nat} {n : Nat} (hn : n ∈ counts) {p : Nat × ℤ}
    (h : atDigits? tie x point n = some p) :
    ∃ m ∈ counts, atDigits? tie x point m = some (firstEnough tie x point counts) := by
  induction counts with
  | nil => cases hn
  | cons m counts ih =>
    unfold firstEnough
    cases hm : atDigits? tie x point m with
    | some q => exact ⟨m, List.mem_cons_self, hm⟩
    | none =>
      have hrest : n ∈ counts := by
        rcases List.mem_cons.1 hn with rfl | hrest
        · rw [hm] at h
          cases h
        · exact hrest
      obtain ⟨k, hk, hfound⟩ := ih hrest
      exact ⟨k, List.mem_cons_of_mem _ hk, hfound⟩

theorem dropZeros_value (fuel : Nat) (p : Nat × ℤ) :
    ((dropZeros fuel p).1 : ℚ) * 10 ^ (dropZeros fuel p).2 = p.1 * 10 ^ p.2 := by
  induction fuel generalizing p with
  | zero => rfl
  | succ fuel ih =>
    obtain ⟨d, e⟩ := p
    unfold dropZeros
    split
    · rename_i hzero
      have hsplit : d = 10 * (d / 10) := by omega
      rw [ih, zpow_add₀ (by norm_num), zpow_one]
      nth_rewrite 2 [hsplit]
      push_cast
      ring
    · rfl

/-- The decimal that is printed for a finite word lies in its interval. -/
theorem shortest_near (tie : Tie) (h : 0 < x.significand) :
    0 < (x.shortest tie).1 ∧ Near x.significand x.exponent
      ((x.shortest tie).1 * 10 ^ (x.shortest tie).2) := by
  obtain ⟨hnum, hden⟩ := magnitudeRatio_pos h
  obtain ⟨hpoint, -⟩ := decimalPoint_spec hnum hden
  rw [magnitudeRatio_eq] at hpoint
  obtain ⟨d, hd, -⟩ := atDigits?_seventeen tie h hpoint
  have hmem : 17 ∈ (List.range 17).map (· + 1) := by decide
  obtain ⟨n, -, hn⟩ := firstEnough_mem hmem hd
  have hnear : Near x.significand x.exponent
      ((x.shortest tie).1 * 10 ^ (x.shortest tie).2) := by
    unfold shortest
    dsimp only
    rw [dropZeros_value]
    rcases atDigits?_cases tie x (decimalPoint x.magnitudeRatio.1 x.magnitudeRatio.2) n with
      ⟨d', hd', hinside⟩ | ⟨hnone, -⟩
    · rw [hn] at hd'
      rw [Option.some.inj hd']
      exact (insideAt_iff h).1 hinside
    · cases hn.symm.trans hnone
  refine ⟨?_, hnear⟩
  have hpos := hnear.pos h
  by_contra hzero
  rw [Nat.le_zero.1 (not_lt.1 hzero), Nat.cast_zero, zero_mul] at hpos
  exact lt_irrefl _ hpos

end Equijoin.Binary64
