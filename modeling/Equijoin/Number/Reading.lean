import Equijoin.Number.Binary64

/-! # Numbers as they are written in cells

* `Whole.read`: a 64-bit integer, `[+-]` digits. The first fault from the left is reported.
* `Binary64.read?`: a floating point number, `[+-]` digits with an optional point and an optional
  power of ten, or an infinity or NaN by name. The number is rounded once, to the nearest word.
-/

set_option autoImplicit false

namespace Equijoin

def digitValue? (c : Char) : Option Nat :=
  if c.isDigit then some (c.toNat - 48) else none

/-! ## Integers -/

/-- Why a text is not a 64-bit integer. -/
inductive WholeFault where
  /-- There is no text. -/
  | empty
  /-- A character is no digit, or a sign stands alone. -/
  | invalidDigit
  /-- The number is above `2 ^ 63 - 1`. -/
  | tooLarge
  /-- The number is below `-2 ^ 63`. -/
  | tooSmall
  deriving DecidableEq, Repr

def WholeFault.message : WholeFault → String
  | .empty => "cannot parse integer from empty string"
  | .invalidDigit => "invalid digit found in string"
  | .tooLarge => "number too large to fit in target type"
  | .tooSmall => "number too small to fit in target type"

namespace Whole

/-- The value of digits after a first part `acc`, as long as it stays within `limit`. -/
def readDigits (limit : Nat) (overflow : WholeFault) : Nat → List Char → Except WholeFault Nat
  | acc, [] => .ok acc
  | acc, c :: cs =>
    match digitValue? c with
    | none => .error .invalidDigit
    | some d =>
      if acc * 10 + d ≤ limit then readDigits limit overflow (acc * 10 + d) cs
      else .error overflow

def readInt (cs : List Char) : Except WholeFault Int :=
  match cs with
  | [] => .error .empty
  | ['+'] | ['-'] => .error .invalidDigit
  | '-' :: ds => (readDigits 0x8000000000000000 .tooSmall 0 ds).map fun n => -(n : Int)
  | '+' :: ds => (readDigits 0x7FFFFFFFFFFFFFFF .tooLarge 0 ds).map fun n => (n : Int)
  | ds => (readDigits 0x7FFFFFFFFFFFFFFF .tooLarge 0 ds).map fun n => (n : Int)

def read (s : String) : Except WholeFault Int64 :=
  (readInt s.toList).map Int64.ofInt

end Whole

/-! ## Decimals -/

/-- The number `digits * 10 ^ exponent`, with a sign. -/
structure Decimal where
  negative : Bool
  digits : Nat
  exponent : Int
  deriving DecidableEq, Repr

namespace Decimal

def ofDigits (cs : List Char) : Nat :=
  cs.foldl (fun n c => n * 10 + (c.toNat - 48)) 0

/-- The value of the digits of a power of ten. It stops growing past `2 ^ 16`, where every number
that a text of sensible length can spell is out of range already. -/
def exponentOfDigits (cs : List Char) : Nat :=
  cs.foldl (fun n c => if n < 0x10000 then n * 10 + (c.toNat - 48) else n) 0

/-- An optional power of ten that ends the text. -/
def readExponent? : List Char → Option Int
  | [] => some 0
  | c :: cs =>
    if c = 'e' || c = 'E' then
      let (negative, ds) : Bool × List Char :=
        match cs with
        | '-' :: ds => (true, ds)
        | '+' :: ds => (false, ds)
        | ds => (false, ds)
      if ds.isEmpty || !ds.all Char.isDigit then none
      else
        let n : Int := (exponentOfDigits ds : Nat)
        some (if negative then -n else n)
    else none

/-- Digits with an optional point and an optional power of ten; at least one digit stands before
or after the point. -/
def readUnsigned? (negative : Bool) (cs : List Char) : Option Decimal :=
  let whole := cs.takeWhile Char.isDigit
  let afterWhole := cs.dropWhile Char.isDigit
  let (places, rest) : List Char × List Char :=
    match afterWhole with
    | '.' :: r => (r.takeWhile Char.isDigit, r.dropWhile Char.isDigit)
    | r => ([], r)
  if whole.isEmpty && places.isEmpty then none
  else (readExponent? rest).map fun e =>
    ⟨negative, ofDigits (whole ++ places), e - places.length⟩

def toBinary64 (d : Decimal) : Binary64 :=
  if 0 ≤ d.exponent then .nearest d.negative (d.digits * tenTo d.exponent.toNat) 1
  else .nearest d.negative d.digits (tenTo (-d.exponent).toNat)

end Decimal

namespace Binary64

/-- An infinity or NaN by name, in any case. -/
def readName? (negative : Bool) (cs : List Char) : Option Binary64 :=
  let name := String.ofList (cs.map Char.toLower)
  if name == "inf" || name == "infinity" then some (infinity negative)
  else if name == "nan" then some (nan negative)
  else none

def readUnsigned? (negative : Bool) (cs : List Char) : Option Binary64 :=
  match Decimal.readUnsigned? negative cs with
  | some d => some d.toBinary64
  | none => readName? negative cs

def read? (s : String) : Option Binary64 :=
  match s.toList with
  | '-' :: cs => readUnsigned? true cs
  | '+' :: cs => readUnsigned? false cs
  | cs => readUnsigned? false cs

end Binary64

end Equijoin
