import Equijoin.Number.Power

/-! # Binary64 numbers

Numbers of the format binary64 of IEEE 754, held as their 64-bit word. All arithmetic is exact
arithmetic on natural numbers; nothing depends on the floating point unit.

* `Binary64.significand`, `Binary64.exponent`: a finite word is `significand * 2 ^ exponent`,
  with the sign of its top bit.
* `nearest`: the word nearest to a quotient of natural numbers, a tie going to the even word.
* `mul`, `div`, `ofNat`: correctly rounded operations, built on `nearest`.
* `wholeValue?`: the integer that a finite word stands for, if it stands for one.
-/

set_option autoImplicit false

namespace Equijoin

/-- A number of the format binary64, as its word. -/
structure Binary64 where
  bits : UInt64
  deriving DecidableEq, Repr, Inhabited

namespace Binary64

/-! ## Fields -/

def isNegative (x : Binary64) : Bool :=
  0x8000000000000000 ≤ x.bits.toNat

def biasedExponent (x : Binary64) : Nat :=
  x.bits.toNat / 0x10000000000000 % 0x800

def fraction (x : Binary64) : Nat :=
  x.bits.toNat % 0x10000000000000

/-- No number: all exponent bits set, and some fraction bit. -/
def isNaN (x : Binary64) : Bool :=
  x.biasedExponent == 2047 && x.fraction != 0

/-- An infinity: all exponent bits set, and no fraction bit. -/
def isInfinite (x : Binary64) : Bool :=
  x.biasedExponent == 2047 && x.fraction == 0

/-- The integer factor of a finite word, with the hidden bit unless the word is subnormal. -/
def significand (x : Binary64) : Nat :=
  if x.biasedExponent = 0 then x.fraction else 0x10000000000000 + x.fraction

def exponent (x : Binary64) : Int :=
  if x.biasedExponent = 0 then -1074 else (x.biasedExponent : Int) - 1075

/-- The word with the given sign and the given 63 lower bits. -/
def ofMagnitude (negative : Bool) (magnitude : Nat) : Binary64 :=
  ⟨UInt64.ofNat ((if negative then 0x8000000000000000 else 0) + magnitude)⟩

def infinityMagnitude : Nat := 0x7FF0000000000000

def infinity (negative : Bool) : Binary64 := ofMagnitude negative infinityMagnitude

def zero (negative : Bool) : Binary64 := ofMagnitude negative 0

def nan (negative : Bool) : Binary64 := ofMagnitude negative (infinityMagnitude + 0x8000000000000)

def neg (x : Binary64) : Binary64 :=
  ofMagnitude (!x.isNegative) (x.bits.toNat % 0x8000000000000000)

/-! ## Rounding -/

/-- The power of two at or below `num / den`, for positive arguments. -/
def floorLog2 (num den : Nat) : Int :=
  let e : Int := (num.log2 : Int) - (den.log2 : Int)
  let fits := if 0 ≤ e then den * twoTo e.toNat ≤ num else den ≤ num * twoTo (-e).toNat
  if fits then e else e - 1

/-- The quotient `num / den` rounded to the nearest integer, a tie going to the even one. -/
def roundHalfEven (num den : Nat) : Nat :=
  let q := num / den
  let r := num % den
  if den < 2 * r || (2 * r == den && q % 2 == 1) then q + 1 else q

/-- The lower 63 bits of the word nearest to `num / den`, for a positive `den`. The quotient is
rounded to a multiple of `2 ^ q`, where `q` leaves 53 bits, or fewer below the least normal number.
Finite words are in the order of their numbers, so a carry out of the 53 bits needs no case. -/
def nearestMagnitude (num den : Nat) : Nat :=
  if num = 0 then 0
  else
    let q : Int := max (floorLog2 num den - 52) (-1074)
    let m := if 0 ≤ q then roundHalfEven num (den * twoTo q.toNat)
      else roundHalfEven (num * twoTo (-q).toNat) den
    min ((q + 1074).toNat * 0x10000000000000 + m) infinityMagnitude

/-- The word nearest to `num / den`, for a positive `den`. -/
def nearest (negative : Bool) (num den : Nat) : Binary64 :=
  ofMagnitude negative (nearestMagnitude num den)

/-- The absolute value of a finite word, as a quotient of natural numbers. -/
def magnitudeRatio (x : Binary64) : Nat × Nat :=
  if 0 ≤ x.exponent then (x.significand * twoTo x.exponent.toNat, 1)
  else (x.significand, twoTo (-x.exponent).toNat)

def ofNat (n : Nat) : Binary64 := nearest false n 1

/-- The product of two finite words, correctly rounded. -/
def mul (x y : Binary64) : Binary64 :=
  let (a, b) := x.magnitudeRatio
  let (c, d) := y.magnitudeRatio
  nearest (x.isNegative != y.isNegative) (a * c) (b * d)

/-- The quotient of a finite word by a finite non-zero word, correctly rounded. -/
def div (x y : Binary64) : Binary64 :=
  let (a, b) := x.magnitudeRatio
  let (c, d) := y.magnitudeRatio
  nearest (x.isNegative != y.isNegative) (a * d) (b * c)

/-! ## Integers -/

/-- The integer that a finite word stands for, if it stands for one. -/
def wholeValue? (x : Binary64) : Option Int :=
  if x.biasedExponent = 2047 then none
  else
    let (num, den) := x.magnitudeRatio
    if num % den = 0 then
      some (if x.isNegative then -((num / den : Nat) : Int) else ((num / den : Nat) : Int))
    else none

end Binary64

end Equijoin
