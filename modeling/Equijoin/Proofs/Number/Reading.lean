import Equijoin.Number.Reading
import Equijoin.Proofs.Number.Shortest

/-! # Numbers read back

The text that is written for a finite word is read as a decimal in the interval of the word, and so
as the word.

* `Decimal.readUnsigned?_point`, `Decimal.readUnsigned?_plain`: digits with and without a point.
* `readExponent?_toString`: powers of ten.
* `Decimal.readUnsigned?_write`: a decimal that was written is read with its value.
* `Binary64.read?_text`: every word but a NaN is read back.
-/

set_option autoImplicit false

namespace Equijoin

/-! ## Digits -/

theorem ofDigits_eq (cs : List Char) : Decimal.ofDigits cs = Nat.ofDigitChars 10 cs 0 := by
  unfold Decimal.ofDigits
  rw [Nat.ofDigitChars_eq_foldl]
  congr 1
  funext n c
  rw [Nat.mul_comm]
  rfl

theorem isDigit_toDigits (n : Nat) : ∀ c ∈ Nat.toDigits 10 n, c.isDigit = true :=
  fun _ hc => Nat.isDigit_of_mem_toDigits (by norm_num) le_rfl hc

theorem isDigit_zeros (n : Nat) : ∀ c ∈ List.replicate n '0', c.isDigit = true := by
  intro c hc
  rw [List.eq_of_mem_replicate hc]
  decide

theorem toList_toString (k : ℤ) : (toString k).toList =
    if 0 ≤ k then Nat.toDigits 10 k.toNat else '-' :: Nat.toDigits 10 (-k).toNat := by
  rw [Int.toString_eq_repr, Int.repr_eq_if]
  split
  · exact Nat.toList_repr
  · rw [String.toList_append, Nat.toList_repr]
    rfl

/-- The digits at the front of a text, and what follows them. -/
theorem span_digits {ds rest : List Char} (hds : ∀ c ∈ ds, c.isDigit = true)
    (hrest : ∀ c ∈ rest.head?, c.isDigit = false) :
    (ds ++ rest).takeWhile Char.isDigit = ds ∧ (ds ++ rest).dropWhile Char.isDigit = rest := by
  rw [List.takeWhile_append_of_pos hds, List.dropWhile_append_of_pos hds]
  cases rest with
  | nil => simp
  | cons c rest =>
    have hc := hrest c rfl
    simp [hc]

/-- The powers of ten that may follow the digits. -/
def IsTail (rest : List Char) : Prop :=
  rest = [] ∨ ∃ ds, rest = 'e' :: ds

theorem IsTail.head {rest : List Char} (h : IsTail rest) : ∀ c ∈ rest.head?, c.isDigit = false := by
  rcases h with rfl | ⟨ds, rfl⟩
  · exact fun c hc => by cases hc
  · intro c hc
    cases hc
    decide

namespace Decimal

theorem readUnsigned?_point (negative : Bool) {whole places rest : List Char} {e : ℤ}
    (hwhole : ∀ c ∈ whole, c.isDigit = true) (hplaces : ∀ c ∈ places, c.isDigit = true)
    (hne : whole ≠ []) (hrest : IsTail rest) (he : readExponent? rest = some e) :
    readUnsigned? negative (whole ++ '.' :: (places ++ rest)) =
      some ⟨negative, ofDigits (whole ++ places), e - places.length⟩ := by
  have hpoint : ∀ c ∈ ('.' :: (places ++ rest)).head?, c.isDigit = false := by
    intro c hc
    cases hc
    decide
  obtain ⟨htake, hdrop⟩ := span_digits hwhole hpoint
  obtain ⟨htake', hdrop'⟩ := span_digits hplaces hrest.head
  unfold readUnsigned?
  simp only [htake, hdrop, htake', hdrop', he]
  rw [if_neg (by simp [hne]), Option.map_some]

theorem readUnsigned?_plain (negative : Bool) {whole rest : List Char} {e : ℤ}
    (hwhole : ∀ c ∈ whole, c.isDigit = true) (hne : whole ≠ []) (hrest : IsTail rest)
    (he : readExponent? rest = some e) :
    readUnsigned? negative (whole ++ rest) = some ⟨negative, ofDigits whole, e⟩ := by
  obtain ⟨htake, hdrop⟩ := span_digits hwhole hrest.head
  unfold readUnsigned?
  simp only [htake, hdrop]
  rcases hrest with rfl | ⟨ds, rfl⟩
  · simp [hne, he]
  · simp [hne, he]

/-! ## Powers of ten -/

theorem exponentOfDigits_eq {cs : List Char} (h : Nat.ofDigitChars 10 cs 0 < 0x10000) :
    exponentOfDigits cs = Nat.ofDigitChars 10 cs 0 := by
  have hfold : ∀ (cs : List Char) (n : Nat), Nat.ofDigitChars 10 cs n < 0x10000 →
      cs.foldl (fun n c => if n < 0x10000 then n * 10 + (c.toNat - 48) else n) n =
        Nat.ofDigitChars 10 cs n := by
    intro cs
    induction cs with
    | nil => exact fun n _ => Nat.ofDigitChars_nil.symm
    | cons c cs ih =>
      intro n hn
      have hle : n ≤ Nat.ofDigitChars 10 (c :: cs) n := by
        rw [Nat.ofDigitChars_eq_ofDigitChars_zero]
        exact le_add_right (Nat.le_mul_of_pos_left n (by positivity))
      rw [Nat.ofDigitChars_cons] at hn hle ⊢
      rw [List.foldl_cons, if_pos (by omega), ← ih _ hn, Nat.mul_comm]
      rfl
  exact hfold cs 0 h

theorem readExponent?_toString {k : ℤ} (h : k.natAbs < 0x10000) :
    readExponent? ('e' :: (toString k).toList) = some k := by
  have hdigits : ∀ n : Nat, n < 0x10000 → exponentOfDigits (Nat.toDigits 10 n) = n := fun n hn => by
    rw [exponentOfDigits_eq (by rwa [Nat.ofDigitChars_ten_toDigits]), Nat.ofDigitChars_ten_toDigits]
  have hall : ∀ n : Nat, (Nat.toDigits 10 n).all Char.isDigit = true := fun n =>
    List.all_eq_true.2 (isDigit_toDigits n)
  rw [toList_toString]
  by_cases hk : 0 ≤ k
  · rw [if_pos hk]
    unfold readExponent?
    dsimp only
    rw [if_pos (by decide)]
    -- the first digit is no sign
    have hfirst := isDigit_toDigits k.toNat
    split
    · rename_i ds hds
      rw [hds] at hfirst
      exact absurd (hfirst '-' List.mem_cons_self) (by decide)
    · rename_i ds hds
      rw [hds] at hfirst
      exact absurd (hfirst '+' List.mem_cons_self) (by decide)
    · simp only [hall, hdigits k.toNat (by omega), List.isEmpty_eq_false_iff.2 Nat.toDigits_ne_nil,
        Bool.not_true, Bool.or_self, Bool.false_eq_true, if_false, Option.some.injEq]
      omega
  · rw [if_neg hk]
    unfold readExponent?
    dsimp only
    rw [if_pos (by decide)]
    simp only [hall, hdigits (-k).toNat (by omega), List.isEmpty_eq_false_iff.2 Nat.toDigits_ne_nil,
      Bool.not_true, Bool.or_self, Bool.false_eq_true, if_false, if_true, Option.some.injEq]
    omega

/-! ## Decimals -/

/-- The number that a decimal stands for, without its sign. -/
def value (d : Decimal) : ℚ := d.digits * 10 ^ d.exponent

theorem ofDigits_append_zeros (ds : List Char) (n : Nat) :
    ofDigits (ds ++ List.replicate n '0') = ofDigits ds * 10 ^ n := by
  rw [ofDigits_eq, ofDigits_eq, Nat.ofDigitChars_append, Nat.ofDigitChars_replicate_zero,
    Nat.mul_comm]

theorem ofDigits_zeros_append (n : Nat) (ds : List Char) :
    ofDigits (List.replicate n '0' ++ ds) = ofDigits ds := by
  rw [ofDigits_eq, ofDigits_eq, Nat.ofDigitChars_append, Nat.ofDigitChars_replicate_zero,
    Nat.mul_zero]

variable {ds : List Char}

theorem readUnsigned?_placed (negative : Bool) (hds : ∀ c ∈ ds, c.isDigit = true) (hne : ds ≠ [])
    (point : ℤ) :
    ∃ d, readUnsigned? negative (DecimalLayout.placed ds point) = some d ∧
      d.negative = negative ∧ d.value = ofDigits ds * 10 ^ (point - ds.length) := by
  have hnone : readExponent? [] = some 0 := rfl
  unfold DecimalLayout.placed
  split
  · rename_i hpoint
    have hread := readUnsigned?_point negative (isDigit_zeros 1)
      (List.forall_mem_append.2 ⟨isDigit_zeros (-point).toNat, hds⟩) (by simp) (.inl rfl) hnone
    rw [List.append_nil] at hread
    refine ⟨_, hread, rfl, ?_⟩
    rw [value, ← List.append_assoc, ← List.replicate_add, ofDigits_zeros_append]
    congr 2
    dsimp only
    rw [List.length_append, List.length_replicate]
    omega
  · rename_i hpoint
    split
    · rename_i hlong
      have hread := readUnsigned?_point negative
        (List.forall_mem_append.2 ⟨hds, isDigit_zeros (point.toNat - ds.length)⟩)
        (isDigit_zeros 1) (by simp [hne]) (.inl rfl) hnone
      refine ⟨_, hread, rfl, ?_⟩
      rw [value, List.append_assoc, ← List.replicate_add, ofDigits_append_zeros]
      push_cast
      rw [mul_assoc, ← zpow_natCast, ← zpow_add₀ (by norm_num)]
      congr 2
      rw [List.length_singleton]
      omega
    · rename_i hshort
      have hwhole : ∀ c ∈ ds.take point.toNat, c.isDigit = true :=
        fun c hc => hds c (List.mem_of_mem_take hc)
      have hplaces : ∀ c ∈ ds.drop point.toNat, c.isDigit = true :=
        fun c hc => hds c (List.mem_of_mem_drop hc)
      have hlength : 0 < ds.length := List.length_pos_iff.2 hne
      have hsome : ds.take point.toNat ≠ [] := by
        rw [Ne, List.take_eq_nil_iff]
        rintro (hzero | hnil)
        · omega
        · exact hne hnil
      have hread := readUnsigned?_point negative hwhole hplaces hsome (.inl rfl) hnone
      rw [List.append_nil] at hread
      refine ⟨_, hread, rfl, ?_⟩
      rw [value, List.take_append_drop]
      congr 2
      dsimp only
      rw [List.length_drop]
      omega

theorem readUnsigned?_scientific (negative : Bool) (hds : ∀ c ∈ ds, c.isDigit = true)
    (hne : ds ≠ []) {point : ℤ} (hpoint : (point - 1).natAbs < 0x10000) :
    ∃ d, readUnsigned? negative (DecimalLayout.scientific [] ds point) = some d ∧
      d.negative = negative ∧ d.value = ofDigits ds * 10 ^ (point - ds.length) := by
  have htail : IsTail ('e' :: (toString (point - 1)).toList) := .inr ⟨_, rfl⟩
  have hexponent := readExponent?_toString hpoint
  have hsign : (if 1 ≤ point then ([] : List Char) else []) = [] := by split <;> rfl
  unfold DecimalLayout.scientific
  dsimp only
  rw [hsign, List.append_assoc, List.singleton_append]
  cases ds with
  | nil => exact absurd rfl hne
  | cons first rest =>
    cases rest with
    | nil =>
      refine ⟨_, readUnsigned?_plain negative hds hne htail hexponent, rfl, ?_⟩
      rw [value]
      rfl
    | cons second rest =>
      have hwhole : ∀ c ∈ [first], c.isDigit = true := by
        intro c hc
        rw [List.mem_singleton.1 hc]
        exact hds first List.mem_cons_self
      have hplaces : ∀ c ∈ second :: rest, c.isDigit = true :=
        fun c hc => hds c (List.mem_cons_of_mem _ hc)
      have hread := readUnsigned?_point negative hwhole hplaces (by simp) htail hexponent
      refine ⟨_, hread, rfl, ?_⟩
      rw [value]
      congr 2
      simp only [List.length_cons]
      omega

/-- A decimal that is written without a sign before positive powers of ten is read with its
value. -/
theorem readUnsigned?_write (negative : Bool) {layout : DecimalLayout} (hplus : layout.plus = [])
    {digits : Nat} {exponent : ℤ}
    (hbound : (((Nat.toDigits 10 digits).length : ℤ) + exponent - 1).natAbs < 0x10000) :
    ∃ d, readUnsigned? negative (layout.write digits exponent) = some d ∧ d.negative = negative ∧
      d.value = digits * 10 ^ exponent := by
  have hds := isDigit_toDigits digits
  have hvalue : ofDigits (Nat.toDigits 10 digits) = digits := by
    rw [ofDigits_eq, Nat.ofDigitChars_ten_toDigits]
  have hplace : ((Nat.toDigits 10 digits).length : ℤ) + exponent -
      (Nat.toDigits 10 digits).length = exponent := by omega
  unfold DecimalLayout.write
  dsimp only
  split
  · obtain ⟨d, hd, hsign, hd'⟩ := readUnsigned?_placed negative hds
      Nat.toDigits_ne_nil ((Nat.toDigits 10 digits).length + exponent)
    rw [hvalue, hplace] at hd'
    exact ⟨d, hd, hsign, hd'⟩
  · rw [hplus]
    obtain ⟨d, hd, hsign, hd'⟩ := readUnsigned?_scientific negative hds
      Nat.toDigits_ne_nil hbound
    rw [hvalue, hplace] at hd'
    exact ⟨d, hd, hsign, hd'⟩

/-- No decimal begins with a sign. -/
theorem head_of_readUnsigned? {negative : Bool} {cs : List Char} {d : Decimal}
    (h : readUnsigned? negative cs = some d) : ∀ c ∈ cs.head?, c ≠ '-' ∧ c ≠ '+' := by
  rintro c hc
  cases cs with
  | nil => cases hc
  | cons first rest =>
    cases hc
    constructor
    · rintro rfl
      cases h
    · rintro rfl
      cases h

end Decimal

namespace Binary64

/-! ## Words -/

theorem head_letter {first : Char} {rest : List Char} (hminus : first ≠ '-') (hplus : first ≠ '+') :
    ∀ c ∈ (first :: rest).head?, c ≠ '-' ∧ c ≠ '+' := by
  intro c hc
  cases hc
  exact ⟨hminus, hplus⟩

theorem read?_signed {negative : Bool} {body : List Char} {x : Binary64}
    (hhead : ∀ c ∈ body.head?, c ≠ '-' ∧ c ≠ '+') (h : readUnsigned? negative body = some x) :
    read? (String.ofList (if negative then '-' :: body else body)) = some x := by
  unfold read?
  rw [String.toList_ofList]
  cases negative with
  | true => exact h
  | false =>
    rw [if_neg Bool.false_ne_true]
    split
    · exact absurd rfl (hhead '-' rfl).1
    · exact absurd rfl (hhead '+' rfl).2
    · exact h

theorem toBinary64_eq {x : Binary64} {d : Decimal} (h : 0 < x.significand)
    (hfinite : x.biasedExponent < 2047) (hsign : d.negative = x.isNegative)
    (hnear : Near x.significand x.exponent d.value) : d.toBinary64 = x := by
  unfold Decimal.toBinary64
  rw [hsign]
  split
  · rename_i hexponent
    refine nearest_eq Nat.one_pos h hfinite ?_
    rw [ratio, Nat.cast_mul, tenTo_toNat hexponent, Nat.cast_one, div_one]
    exact hnear
  · rename_i hexponent
    refine nearest_eq (Nat.pow_pos (by norm_num)) h hfinite ?_
    rw [ratio, tenTo_toNat (by omega), zpow_neg, div_inv_eq_mul]
    exact hnear

/-- The first digit of a decimal tells its size. -/
theorem toDigits_scaled {digits : Nat} (h : 0 < digits) (exponent : ℤ) :
    (10 : ℚ) ^ (((Nat.toDigits 10 digits).length : ℤ) + exponent - 1) ≤ digits * 10 ^ exponent ∧
      digits * 10 ^ exponent < (10 : ℚ) ^ (((Nat.toDigits 10 digits).length : ℤ) + exponent) := by
  obtain ⟨hlow, hhigh⟩ := toDigits_bounds h
  have hlength : 0 < (Nat.toDigits 10 digits).length := Nat.length_toDigits_pos
  generalize (Nat.toDigits 10 digits).length = n at hlow hhigh hlength ⊢
  constructor
  · have hsplit : (n : ℤ) + exponent - 1 = ((n - 1 : ℕ) : ℤ) + exponent := by omega
    rw [hsplit, zpow_add₀ (by norm_num), zpow_natCast]
    gcongr
    exact_mod_cast hlow
  · rw [zpow_add₀ (by norm_num), zpow_natCast]
    gcongr
    exact_mod_cast hhigh

section Near

variable {s : Nat} {t : ℤ} {v : ℚ}

theorem Near.lt_tenTo (h : Near s t v) (hs : Finite s t) (ht : t ≤ 971) :
    v < 10 ^ (1025 : ℤ) := by
  have hcount : (s : ℚ) ≤ 0x1FFFFFFFFFFFFF := by
    exact_mod_cast (by have := hs.lt; omega : s ≤ 0x1FFFFFFFFFFFFF)
  calc v ≤ ((s : ℚ) + 1 / 2) * 2 ^ t := h.2.1
    _ ≤ 2 ^ (53 : ℤ) * 2 ^ (971 : ℤ) := by
        gcongr
        · norm_num
          linarith
        · norm_num
    _ = 2 ^ (1024 : ℤ) := by
        rw [← zpow_add₀ two_ne_zero]
        rfl
    _ ≤ 10 ^ (1024 : ℤ) := zpow_le_zpow_left₀ (by norm_num) (by norm_num) (by norm_num)
    _ < 10 ^ (1025 : ℤ) := zpow_lt_zpow_right₀ (by norm_num) (by norm_num)

theorem Near.tenTo_le (h : Near s t v) (hs : Finite s t) : 10 ^ (-1075 : ℤ) ≤ v := by
  have hcount : (1 : ℚ) ≤ s := by exact_mod_cast hs.pos
  calc (10 : ℚ) ^ (-1075 : ℤ) ≤ 2 ^ (-1075 : ℤ) := by
        rw [zpow_neg, zpow_neg]
        refine inv_anti₀ (by positivity) ?_
        exact zpow_le_zpow_left₀ (by norm_num) (by norm_num) (by norm_num)
    _ = 1 / 2 * 2 ^ (-1074 : ℤ) := by
        rw [one_div, ← zpow_neg_one, ← zpow_add₀ two_ne_zero]
        rfl
    _ ≤ 1 / 2 * 2 ^ t := by
        gcongr
        · norm_num
        · exact hs.least
    _ ≤ (s - if s = 0x10000000000000 ∧ t ≠ -1074 then 1 / 4 else 1 / 2) * 2 ^ t := by
        gcongr
        split <;> linarith
    _ ≤ v := h.1

/-- The decimal point of a decimal near to a finite word is not far away. -/
theorem Near.point_bound {digits : Nat} {exponent : ℤ} (hs : Finite s t) (ht : t ≤ 971)
    (hpos : 0 < digits) (h : Near s t (digits * 10 ^ exponent)) :
    (((Nat.toDigits 10 digits).length : ℤ) + exponent - 1).natAbs < 0x10000 := by
  obtain ⟨hlow, hhigh⟩ := toDigits_scaled hpos exponent
  have hless := (zpow_lt_zpow_iff_right₀ (by norm_num)).1 (hlow.trans_lt (h.lt_tenTo hs ht))
  have hmore := (zpow_lt_zpow_iff_right₀ (by norm_num)).1 ((h.tenTo_le hs).trans_lt hhigh)
  omega

end Near

/-- Every word that is not a NaN is read back from its text. -/
theorem read?_text {layout : DecimalLayout} (hplus : layout.plus = []) {x : Binary64}
    (h : x.isNaN = false) : read? (x.text layout) = some x := by
  unfold text
  rw [if_neg (by rw [h]; exact Bool.false_ne_true)]
  suffices hbody : ∀ body : List Char, body = (if x.isInfinite then ['i', 'n', 'f']
      else if x.significand = 0 then ['0', '.', '0']
      else layout.write (x.shortest layout.tie).1 (x.shortest layout.tie).2) →
      (∀ c ∈ body.head?, c ≠ '-' ∧ c ≠ '+') ∧ readUnsigned? x.isNegative body = some x by
    obtain ⟨hhead, hread⟩ := hbody _ rfl
    exact read?_signed hhead hread
  rintro body rfl
  split
  · rename_i hinfinite
    have hname : readUnsigned? x.isNegative ['i', 'n', 'f'] = some (infinity x.isNegative) := rfl
    rw [infinity_eq hinfinite] at hname
    exact ⟨head_letter (by decide) (by decide), hname⟩
  · rename_i hinfinite
    have hfinite : x.biasedExponent < 2047 := by
      have hlt := x.biasedExponent_lt
      refine Nat.lt_of_le_of_ne (by omega) fun hbiased => ?_
      simp only [isNaN, hbiased, beq_self_eq_true, Bool.true_and, bne_eq_false_iff_eq] at h
      simp only [isInfinite, hbiased, h, beq_self_eq_true, Bool.and_self, not_true] at hinfinite
    split
    · rename_i hzero
      have hdecimal : readUnsigned? x.isNegative ['0', '.', '0'] =
          some (nearest x.isNegative 0 (tenTo 1)) := rfl
      rw [nearest_zero _ hzero] at hdecimal
      exact ⟨head_letter (by decide) (by decide), hdecimal⟩
    · rename_i hnonzero
      have hpos := Nat.pos_of_ne_zero hnonzero
      obtain ⟨hdigits, hnear⟩ := shortest_near layout.tie hpos
      have hleast : x.exponent ≤ 971 := by
        unfold exponent
        split <;> omega
      obtain ⟨d, hd, hsign, hvalue⟩ := Decimal.readUnsigned?_write x.isNegative hplus
        (hnear.point_bound (finite_word hpos) hleast hdigits)
      refine ⟨Decimal.head_of_readUnsigned? hd, ?_⟩
      unfold readUnsigned?
      rw [hd]
      dsimp only
      rw [toBinary64_eq hpos hfinite hsign (hvalue ▸ hnear)]

end Binary64

end Equijoin
