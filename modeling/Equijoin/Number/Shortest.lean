import Equijoin.Number.Binary64

/-! # The shortest decimal of a binary64 number

A number is printed with the fewest digits that read back as the same word; of the decimals with
that many digits the nearest one is taken, and of two equally near ones the one that a rule for ties
says.

* `Binary64.shortest`: digits and power of ten of a finite non-zero word.
* `DecimalLayout`: how ties are broken, for which magnitudes the decimal is written without a power
  of ten, and the sign of that power.
* `Binary64.text`: the text of a word in a layout.
-/

set_option autoImplicit false

namespace Equijoin

/-! ## Digits -/

/-- Which of two equally near decimals is taken. -/
inductive Tie where
  /-- The one further from zero. -/
  | away
  /-- The one with an even last digit. -/
  | even
  deriving DecidableEq, Repr

/-- The upper one of two decimals with the last digits `down` and `down + 1` is taken. -/
def Tie.takesUpper (tie : Tie) (down : Nat) : Bool :=
  match tie with
  | .away => true
  | .even => down % 2 == 1

namespace Binary64

/-- Four times a finite word and the ends of the interval of numbers that round to it, in units of
`2 ^ (exponent - 2)`. The lower neighbour of a power of two is only half as far away. -/
def roundingInterval (x : Binary64) : Nat × Nat × Nat :=
  let m := 4 * x.significand
  let below := if x.fraction = 0 && 1 < x.biasedExponent then 1 else 2
  (m - below, m, m + 2)

/-- The number of decimal digits of the integer part of `num / den`. -/
def decimalPoint (num den : Nat) : Int :=
  if den ≤ num then ((Nat.toDigits 10 (num / den)).length : Int)
  else
    -- the first digit that is not zero stands as far after the point as `den / num` is long
    let k := (Nat.toDigits 10 ((den - 1) / num)).length
    1 - (k : Int)

/-- The decimal with `count` digits that is nearest to a word, if one of the two decimals with
that many digits on either side of the word rounds to it; `point` is the number of digits of the
word before its decimal point. -/
def atDigits? (tie : Tie) (x : Binary64) (point : Int) (count : Nat) : Option (Nat × Int) :=
  let (low, mid, high) := x.roundingInterval
  let closed := x.significand % 2 == 0
  -- one unit of the last digit is `step / unit` in the units of the interval
  let place : Int := point - count
  let two : Int := x.exponent - 2
  let step :=
    (if 0 ≤ place then tenTo place.toNat else 1) * (if two < 0 then twoTo (-two).toNat else 1)
  let unit :=
    (if place < 0 then tenTo (-place).toNat else 1) * (if 0 ≤ two then twoTo two.toNat else 1)
  let down := mid * unit / step
  let up := down + 1
  let inside (d : Nat) : Bool :=
    if closed then low * unit ≤ d * step && d * step ≤ high * unit
    else low * unit < d * step && d * step < high * unit
  match inside down, inside up with
  | true, true =>
    let upper :=
      (down + up) * step < 2 * (mid * unit) ||
        (2 * (mid * unit) == (down + up) * step && tie.takesUpper down)
    some (if upper then up else down, place)
  | true, false => some (down, place)
  | false, true => some (up, place)
  | false, false => none

/-- The first of the digit counts that is enough. -/
def firstEnough (tie : Tie) (x : Binary64) (point : Int) : List Nat → Nat × Int
  | [] => (0, 0)
  | n :: ns => (atDigits? tie x point n).getD (firstEnough tie x point ns)

/-- A decimal without the zeros at its end; `fuel` bounds their number. -/
def dropZeros : (fuel : Nat) → Nat × Int → Nat × Int
  | 0, d => d
  | fuel + 1, (d, e) => if d % 10 = 0 then dropZeros fuel (d / 10, e + 1) else (d, e)

/-- Digits and power of ten of a finite non-zero word. Seventeen digits are always enough. -/
def shortest (tie : Tie) (x : Binary64) : Nat × Int :=
  let (num, den) := x.magnitudeRatio
  dropZeros 17 (firstEnough tie x (decimalPoint num den) ((List.range 17).map (· + 1)))

end Binary64

/-! ## Text -/

/-- A form in which numbers are written. A decimal is written without a power of ten if the number
of its digits before the point (zero or negative if it starts after the point) lies in the range
from `least` to `greatest`. -/
structure DecimalLayout where
  tie : Tie
  least : Int
  greatest : Int
  /-- What stands before the power of ten unless it is negative. -/
  plus : List Char
  deriving DecidableEq, Repr

/-- Cells write the numbers from `1e-4` up to `1e16` without a power of ten, others as `1e16`. -/
def cellLayout : DecimalLayout := ⟨.away, -3, 16, []⟩

/-- Messages about JSON numbers write those from `1e-5` up to `1e16` without a power of ten, others
as `1e+16`. -/
def jsonLayout : DecimalLayout := ⟨.even, -4, 16, ['+']⟩

namespace DecimalLayout

/-- Digits around a decimal point that follows the first `point` of them. -/
def placed (digits : List Char) (point : Int) : List Char :=
  if point ≤ 0 then ['0', '.'] ++ List.replicate (-point).toNat '0' ++ digits
  else if (digits.length : Int) ≤ point then
    digits ++ List.replicate (point.toNat - digits.length) '0' ++ ['.', '0']
  else digits.take point.toNat ++ '.' :: digits.drop point.toNat

/-- Digits with the point after the first one, and a power of ten. -/
def scientific (plus digits : List Char) (point : Int) : List Char :=
  let lead :=
    match digits with
    | d :: e :: r => d :: '.' :: e :: r
    | ds => ds
  let sign := if 1 ≤ point then plus else []
  lead ++ 'e' :: sign ++ (toString (point - 1)).toList

/-- The text of the decimal `digits * 10 ^ exponent`. -/
def write (layout : DecimalLayout) (digits : Nat) (exponent : Int) : List Char :=
  let ds := Nat.toDigits 10 digits
  let point : Int := ds.length + exponent
  if layout.least ≤ point && point ≤ layout.greatest then placed ds point
  else scientific layout.plus ds point

end DecimalLayout

def Binary64.text (layout : DecimalLayout) (x : Binary64) : String :=
  if x.isNaN then "NaN"
  else
    let body : List Char :=
      if x.isInfinite then ['i', 'n', 'f']
      else if x.significand = 0 then ['0', '.', '0']
      else
        let (digits, exponent) := x.shortest layout.tie
        layout.write digits exponent
    String.ofList (if x.isNegative then '-' :: body else body)

end Equijoin
