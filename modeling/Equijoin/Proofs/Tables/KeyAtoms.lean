import Equijoin.Key
import Equijoin.Proofs.Number.Values

/-! # Canonical values

Two values have one canonical form if they are the same text, the same truth value or the same
number. Only for `-2 ^ 63` does it matter whether a number is held as an integer or as a float.

* `Binary64.Folds`: the float is taken for an integer.
* `ofFloat_cases`: the canonical form of a float.
* `Value.quantity?`: the number of a value.
* `ofValue_eq_iff`: which values are missing, and which are the same.
-/

set_option autoImplicit false

namespace Equijoin

/-! ## Floats that are integers -/

/-- The word of `-2 ^ 63`. -/
def Binary64.lowest : Binary64 := ⟨0xC3E0000000000000⟩

/-- The float stands for an integer of 64 bits other than the lowest. -/
def Binary64.Folds (x : Binary64) (v : Int64) : Prop :=
  x.IsFinite ∧ x.value = v.toInt ∧ v ≠ Int64.minValue

section Floats

variable {x y : Binary64} {v w : Int64}

theorem value_lowest : Binary64.lowest.value = -2 ^ 63 := by
  have hsign : Binary64.lowest.isNegative = true := by decide
  have hsignificand : Binary64.lowest.significand = 2 ^ 52 := by decide
  have hexponent : Binary64.lowest.exponent = 11 := by decide
  rw [Binary64.value, if_pos hsign, Binary64.magnitude, hsignificand, hexponent]
  norm_num

theorem toInt_ne_of_ne_minValue (h : v ≠ Int64.minValue) : v.toInt ≠ -2 ^ 63 := by
  intro hlow
  exact h (Int64.toInt_inj.1 (hlow.trans (by decide)))

theorem toInt_bounds (h : v ≠ Int64.minValue) : -2 ^ 63 < v.toInt ∧ v.toInt < 2 ^ 63 := by
  have hlow := v.le_toInt
  have hhigh := v.toInt_lt
  have hne := toInt_ne_of_ne_minValue h
  exact ⟨by omega, hhigh⟩

/-- The canonical form of a float. -/
theorem ofFloat_cases (x : Binary64) :
    (x.isNaN = true ∧ KeyAtom.ofFloat x = .null) ∨
      x.isNaN = false ∧ ((∃ v, x.Folds v ∧ KeyAtom.ofFloat x = .int v) ∨
        (∀ v, ¬ x.Folds v) ∧ KeyAtom.ofFloat x = .float x.bits) := by
  unfold KeyAtom.ofFloat
  cases hnan : x.isNaN with
  | true => exact .inl ⟨rfl, rfl⟩
  | false =>
    refine .inr ⟨rfl, ?_⟩
    cases hwhole : x.wholeValue? with
    | none =>
      refine .inr ⟨fun v hv => ?_, rfl⟩
      rw [Binary64.wholeValue?_eq_some.2 ⟨hv.1, hv.2.1⟩] at hwhole
      cases hwhole
    | some n =>
      obtain ⟨hfinite, hvalue⟩ := Binary64.wholeValue?_eq_some.1 hwhole
      by_cases hbounds : -0x8000000000000000 < n ∧ n < 0x8000000000000000
      · have hn : (Int64.ofInt n).toInt = n :=
          Int64.toInt_ofInt_of_le (by omega) (by omega)
        refine .inl ⟨Int64.ofInt n, ⟨hfinite, by rw [hn, hvalue], fun hmin => ?_⟩, if_pos hbounds⟩
        rw [hmin] at hn
        have hlow : Int64.minValue.toInt = -0x8000000000000000 := by decide
        omega
      · refine .inr ⟨fun v hv => hbounds ?_, if_neg hbounds⟩
        obtain rfl : n = v.toInt := Int.cast_injective (hvalue.symm.trans hv.2.1)
        exact toInt_bounds hv.2.2

theorem Binary64.Folds.unique (h : x.Folds v) (h' : x.Folds w) : v = w :=
  Int64.toInt_inj.1 (Int.cast_injective (h.2.1.symm.trans h'.2.1))

theorem ofFloat_eq_int : KeyAtom.ofFloat x = .int v ↔ x.Folds v := by
  rcases ofFloat_cases x with ⟨hnan, h⟩ | ⟨-, ⟨w, hw, h⟩ | ⟨hnone, h⟩⟩
  · rw [h]
    refine iff_of_false (by simp) fun hv => ?_
    have hbiased := hv.1
    unfold Binary64.IsFinite at hbiased
    simp [Binary64.isNaN, hbiased] at hnan
  · rw [h, KeyAtom.int.injEq]
    exact ⟨fun heq => heq ▸ hw, hw.unique⟩
  · rw [h]
    exact iff_of_false (by simp) (hnone v)

/-! ## What floats stand for -/

theorem quantity?_eq_number {q : ℚ} :
    x.quantity? = some (.number q) ↔ x.IsFinite ∧ x.value = q := by
  by_cases hfinite : x.IsFinite
  · rw [Binary64.quantity?_finite hfinite, Option.some_inj, Quantity.number.injEq,
      and_iff_right hfinite]
  · refine iff_of_false (fun h => ?_) fun h => hfinite h.1
    cases hnan : x.isNaN with
    | true => simp [Binary64.quantity?, hnan] at h
    | false => simp [Binary64.quantity?_infinite hnan hfinite] at h

/-- Floats that stand for the same, neither of which is taken for an integer, are the same. -/
theorem eq_of_quantity?_eq (hx : x.isNaN = false) (hy : y.isNaN = false) (hnone : ∀ v, ¬ x.Folds v)
    (h : x.quantity? = y.quantity?) : x = y := by
  by_cases hfinite : x.IsFinite
  · rw [Binary64.quantity?_finite hfinite] at h
    obtain ⟨hfinite', hvalue⟩ := quantity?_eq_number.1 h.symm
    have hne : x.value ≠ 0 := fun hzero => hnone 0 ⟨hfinite, by rw [hzero]; rfl, by decide⟩
    exact Binary64.eq_of_value_eq hfinite hfinite' hne hvalue.symm
  · have hfinite' : ¬ y.IsFinite := by
      intro hfinite'
      rw [Binary64.quantity?_infinite hx hfinite, Binary64.quantity?_finite hfinite'] at h
      cases h
    rw [Binary64.quantity?_infinite hx hfinite, Binary64.quantity?_infinite hy hfinite'] at h
    have hinfinite := (Binary64.isInfinite_iff hx).2 hfinite
    have hinfinite' := (Binary64.isInfinite_iff hy).2 hfinite'
    exact Binary64.eq_of_infinite hinfinite hinfinite'
      (Quantity.infinite.inj (Option.some_inj.1 h))

theorem ofFloat_eq_ofFloat_iff (hx : x.isNaN = false) (hy : y.isNaN = false) :
    KeyAtom.ofFloat x = KeyAtom.ofFloat y ↔ x.quantity? = y.quantity? := by
  have hfolds : ∀ {z : Binary64} {v : Int64}, z.Folds v → z.quantity? = some (.number v.toInt) :=
    fun hz => quantity?_eq_number.2 ⟨hz.1, hz.2.1⟩
  rcases ofFloat_cases x with ⟨hnan, -⟩ | ⟨-, ⟨v, hv, hatom⟩ | ⟨hnone, hatom⟩⟩
  · cases hx.symm.trans hnan
  · rw [hatom, eq_comm, ofFloat_eq_int, hfolds hv]
    refine ⟨fun h => (hfolds h).symm, fun h => ?_⟩
    obtain ⟨hfinite, hvalue⟩ := quantity?_eq_number.1 h.symm
    exact ⟨hfinite, hvalue, hv.2.2⟩
  · refine ⟨fun h => ?_, fun h => by rw [eq_of_quantity?_eq hx hy hnone h]⟩
    rcases ofFloat_cases y with ⟨hnan, -⟩ | ⟨-, ⟨v, -, hatom'⟩ | ⟨-, hatom'⟩⟩
    · cases hy.symm.trans hnan
    · rw [hatom, hatom'] at h
      cases h
    · rw [hatom, hatom', KeyAtom.float.injEq] at h
      exact congrArg (fun bits => Binary64.quantity? ⟨bits⟩) h

/-- An integer has the canonical form of a float of the same number, unless that is `-2 ^ 63`. -/
theorem folds_iff : x.Folds v ↔
    x.quantity? = some (.number v.toInt) ∧ ¬ (v = Int64.minValue ∧ x = Binary64.lowest) := by
  rw [quantity?_eq_number]
  constructor
  · rintro ⟨hfinite, hvalue, hne⟩
    exact ⟨⟨hfinite, hvalue⟩, fun h => hne h.1⟩
  · rintro ⟨⟨hfinite, hvalue⟩, hnot⟩
    refine ⟨hfinite, hvalue, fun hmin => hnot ⟨hmin, ?_⟩⟩
    have hlow : Int64.minValue.toInt = -2 ^ 63 := by decide
    have hnumber : x.value = -2 ^ 63 := by
      rw [hvalue, hmin, hlow]
      norm_num
    refine Binary64.eq_of_value_eq hfinite (by unfold Binary64.IsFinite; decide) ?_
      (hnumber.trans value_lowest.symm)
    rw [hnumber]
    norm_num

end Floats

/-! ## Values -/

namespace Value

/-- The number that a value stands for, or the infinity. -/
def quantity? : Value → Option Quantity
  | .int v => some (.number v.toInt)
  | .float x => x.quantity?
  | _ => none

/-- Nothing, a NaN or blank text. -/
def IsMissing (v : Value) : Prop :=
  v = .null ∨ (∃ x, v = .float x ∧ x.isNaN = true) ∨ ∃ s, v = .text s ∧ Text.trim s = ""

/-- Texts that are the same without surrounding blanks. -/
def SameText (v w : Value) : Prop :=
  ∃ s t, v = .text s ∧ w = .text t ∧ Text.trim s = Text.trim t

def SameBool (v w : Value) : Prop := ∃ b, v = .bool b ∧ w = .bool b

/-- Integers or floats that stand for the same number. -/
def SameNumber (v w : Value) : Prop := ∃ q, v.quantity? = some q ∧ w.quantity? = some q

/-- The lowest integer, and the float of the same number. -/
def LowestPair (v w : Value) : Prop := v = .int Int64.minValue ∧ w = .float Binary64.lowest

end Value

open Value

section Values

variable {v w : Value} {q r : Quantity}

theorem ofValue_eq_null : KeyAtom.ofValue v = .null ↔ v.IsMissing := by
  unfold IsMissing
  cases v with
  | null => simp [KeyAtom.ofValue]
  | int v => simp [KeyAtom.ofValue]
  | bool b => simp [KeyAtom.ofValue]
  | text s => simp [KeyAtom.ofValue]
  | float x =>
    rcases ofFloat_cases x with ⟨hnan, h⟩ | ⟨hnumber, ⟨v, -, h⟩ | ⟨-, h⟩⟩
    · simp [KeyAtom.ofValue, h, hnan]
    · simp [KeyAtom.ofValue, h, hnumber]
    · simp [KeyAtom.ofValue, h, hnumber]

/-- A value that is not missing is a text, a truth value or a number. -/
theorem kind_of_ofValue_ne_null (h : KeyAtom.ofValue v ≠ .null) :
    (∃ s, v = .text s ∧ Text.trim s ≠ "") ∨ (∃ b, v = .bool b) ∨ ∃ q, v.quantity? = some q := by
  rw [Ne, ofValue_eq_null, IsMissing, not_or, not_or] at h
  obtain ⟨hnull, hnan, hblank⟩ := h
  cases v with
  | null => exact absurd rfl hnull
  | int v => exact .inr (.inr ⟨_, rfl⟩)
  | bool b => exact .inr (.inl ⟨b, rfl⟩)
  | text s => exact .inl ⟨s, rfl, fun hs => hblank ⟨s, rfl, hs⟩⟩
  | float x =>
    have hx : x.isNaN = false := Bool.eq_false_iff.2 fun hx => hnan ⟨x, rfl, hx⟩
    by_cases hfinite : x.IsFinite
    · exact .inr (.inr ⟨_, Binary64.quantity?_finite hfinite⟩)
    · exact .inr (.inr ⟨_, Binary64.quantity?_infinite hx hfinite⟩)

theorem isNaN_of_quantity?_eq_some {x : Binary64} (h : x.quantity? = some q) : x.isNaN = false := by
  cases hnan : x.isNaN with
  | true => simp [Binary64.quantity?, hnan] at h
  | false => rfl

/-- The canonical form of a number is that of an integer or of a float. -/
theorem ofValue_of_quantity? (h : v.quantity? = some q) :
    (∃ n, KeyAtom.ofValue v = .int n) ∨ ∃ bits, KeyAtom.ofValue v = .float bits := by
  cases v with
  | null => cases h
  | int v => exact .inl ⟨v, rfl⟩
  | bool b => cases h
  | text s => cases h
  | float x =>
    rcases ofFloat_cases x with ⟨hnan, -⟩ | ⟨-, ⟨n, -, hatom⟩ | ⟨-, hatom⟩⟩
    · cases (isNaN_of_quantity?_eq_some h).symm.trans hnan
    · exact .inl ⟨n, hatom⟩
    · exact .inr ⟨_, hatom⟩

theorem ofValue_eq_text {t : String} (ht : t ≠ "") :
    KeyAtom.ofValue v = .text t ↔ ∃ s, v = .text s ∧ Text.trim s = t := by
  constructor
  · intro h
    rcases kind_of_ofValue_ne_null (by rw [h]; simp) with ⟨s, rfl, hs⟩ | ⟨b, rfl⟩ | ⟨q, hq⟩
    · rw [KeyAtom.ofValue, if_neg hs, KeyAtom.text.injEq] at h
      exact ⟨s, rfl, h⟩
    · cases h
    · rcases ofValue_of_quantity? hq with ⟨n, hatom⟩ | ⟨bits, hatom⟩ <;> cases h.symm.trans hatom
  · rintro ⟨s, rfl, rfl⟩
    rw [KeyAtom.ofValue, if_neg ht]

theorem ofValue_eq_bool {b : Bool} : KeyAtom.ofValue v = .bool b ↔ v = .bool b := by
  constructor
  · intro h
    rcases kind_of_ofValue_ne_null (by rw [h]; simp) with ⟨s, rfl, hs⟩ | ⟨c, rfl⟩ | ⟨q, hq⟩
    · rw [KeyAtom.ofValue, if_neg hs] at h
      cases h
    · exact congrArg Value.bool (KeyAtom.bool.inj h)
    · rcases ofValue_of_quantity? hq with ⟨n, hatom⟩ | ⟨bits, hatom⟩ <;> cases h.symm.trans hatom
  · rintro rfl
    rfl

/-- An integer and a float have one canonical form if they stand for one number, unless that is
`-2 ^ 63`. -/
theorem ofValue_int_eq_float {n : Int64} {x : Binary64} :
    KeyAtom.ofValue (.int n) = KeyAtom.ofValue (.float x) ↔
      x.quantity? = some (.number n.toInt) ∧ ¬ LowestPair (.int n) (.float x) := by
  unfold LowestPair
  rw [Value.int.injEq, Value.float.injEq, ← folds_iff, ← ofFloat_eq_int]
  exact eq_comm

theorem ofValue_eq_iff_of_quantity? (hv : v.quantity? = some q) (hw : w.quantity? = some r) :
    KeyAtom.ofValue v = KeyAtom.ofValue w ↔ q = r ∧ ¬ (v.LowestPair w ∨ w.LowestPair v) := by
  cases v with
  | null => cases hv
  | bool b => cases hv
  | text s => cases hv
  | int m =>
    cases w with
    | null => cases hw
    | bool b => cases hw
    | text s => cases hw
    | int n =>
      obtain rfl := Option.some_inj.1 hv
      obtain rfl := Option.some_inj.1 hw
      rw [KeyAtom.ofValue, KeyAtom.ofValue, KeyAtom.int.injEq, Quantity.number.injEq, Int.cast_inj,
        Int64.toInt_inj]
      exact (and_iff_left fun h => h.elim (fun h => nomatch h.2) fun h => nomatch h.2).symm
    | float y =>
      obtain rfl := Option.some_inj.1 hv
      rw [ofValue_int_eq_float, show y.quantity? = some r from hw, Option.some_inj, eq_comm,
        or_iff_left (fun h => nomatch h.1 : ¬ LowestPair (.float y) (.int m))]
  | float x =>
    cases w with
    | null => cases hw
    | bool b => cases hw
    | text s => cases hw
    | int n =>
      obtain rfl := Option.some_inj.1 hw
      rw [eq_comm, ofValue_int_eq_float, show x.quantity? = some q from hv, Option.some_inj,
        or_iff_right (fun h => nomatch h.1 : ¬ LowestPair (.float x) (.int n))]
    | float y =>
      rw [KeyAtom.ofValue, KeyAtom.ofValue,
        ofFloat_eq_ofFloat_iff (isNaN_of_quantity?_eq_some hv) (isNaN_of_quantity?_eq_some hw),
        show x.quantity? = some q from hv, show y.quantity? = some r from hw, Option.some_inj]
      exact (and_iff_left fun h => h.elim (fun h => nomatch h.1) fun h => nomatch h.1).symm

end Values

/-- Two values have one canonical form exactly if they are the same. A number is the same whether it
is held as an integer or as a float, except for `-2 ^ 63`. -/
theorem ofValue_eq_iff (v w : Value) :
    (KeyAtom.ofValue v = .null ↔ v.IsMissing) ∧
      (KeyAtom.ofValue v ≠ .null → KeyAtom.ofValue w ≠ .null →
        (KeyAtom.ofValue v = KeyAtom.ofValue w ↔
          v.SameText w ∨ v.SameBool w ∨
            v.SameNumber w ∧ ¬ (v.LowestPair w ∨ w.LowestPair v))) := by
  refine ⟨ofValue_eq_null, fun hv hw => ?_⟩
  rcases kind_of_ofValue_ne_null hv with ⟨s, rfl, hs⟩ | ⟨b, rfl⟩ | ⟨q, hq⟩
  · rw [KeyAtom.ofValue, if_neg hs, eq_comm, ofValue_eq_text hs]
    constructor
    · rintro ⟨t, rfl, ht⟩
      exact .inl ⟨s, t, rfl, rfl, ht.symm⟩
    · rintro (⟨_, t, ⟨⟩, rfl, ht⟩ | ⟨b, ⟨⟩, -⟩ | ⟨⟨q, ⟨⟩, -⟩, -⟩)
      exact ⟨t, rfl, ht.symm⟩
  · rw [show KeyAtom.ofValue (.bool b) = .bool b from rfl, eq_comm, ofValue_eq_bool]
    constructor
    · rintro rfl
      exact .inr (.inl ⟨b, rfl, rfl⟩)
    · rintro (⟨s, t, ⟨⟩, -⟩ | ⟨c, ⟨⟩, rfl⟩ | ⟨⟨q, ⟨⟩, -⟩, -⟩)
      rfl
  · have htext : ¬ v.SameText w := by
      rintro ⟨s, t, rfl, -⟩
      cases hq
    have hbool : ¬ v.SameBool w := by
      rintro ⟨b, rfl, -⟩
      cases hq
    rw [or_iff_right htext, or_iff_right hbool]
    rcases kind_of_ofValue_ne_null hw with ⟨t, rfl, ht⟩ | ⟨c, rfl⟩ | ⟨r, hr⟩
    · refine iff_of_false (fun h => ?_) fun h => ?_
      · rw [KeyAtom.ofValue, if_neg ht] at h
        obtain ⟨s, rfl, -⟩ := (ofValue_eq_text ht).1 h
        cases hq
      · obtain ⟨⟨r, -, hr⟩, -⟩ := h
        cases hr
    · refine iff_of_false (fun h => ?_) fun h => ?_
      · obtain rfl := ofValue_eq_bool.1 h
        cases hq
      · obtain ⟨⟨r, -, hr⟩, -⟩ := h
        cases hr
    · rw [ofValue_eq_iff_of_quantity? hq hr]
      have hsame : q = r ↔ v.SameNumber w := by
        unfold SameNumber
        rw [hq, hr]
        exact ⟨fun h => ⟨q, rfl, by rw [h]⟩,
          fun ⟨p, hp, hp'⟩ => Option.some_inj.1 (hp.trans hp'.symm)⟩
      rw [hsame]

/-- The integer 3 and the float 3 are the same. -/
theorem ofValue_eq_iff_three :
    KeyAtom.ofValue (.int 3) ≠ .null ∧
      KeyAtom.ofValue (.float ⟨0x4008000000000000⟩) ≠ .null ∧
      SameNumber (.int 3) (.float ⟨0x4008000000000000⟩) := by
  have hleft : KeyAtom.ofValue (.int 3) ≠ .null := by decide
  have hright : KeyAtom.ofValue (.float ⟨0x4008000000000000⟩) ≠ .null := by decide
  have hsame : KeyAtom.ofValue (.int 3) = KeyAtom.ofValue (.float ⟨0x4008000000000000⟩) := by decide
  refine ⟨hleft, hright, ?_⟩
  rcases ((ofValue_eq_iff _ _).2 hleft hright).1 hsame with ⟨s, t, ⟨⟩, -⟩ | ⟨b, ⟨⟩, -⟩ | ⟨h, -⟩
  exact h

end Equijoin
