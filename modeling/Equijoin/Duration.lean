import Equijoin.Number.Power

/-! # Durations

* `Duration`: a number of nanoseconds.
* `Duration.text`: seconds, milliseconds, microseconds or nanoseconds, in the largest unit of which
  there is a whole one, with the decimals that are needed.
-/

set_option autoImplicit false

namespace Equijoin

/-- A span of time. -/
structure Duration where
  nanos : Nat
  deriving DecidableEq, Repr, Inhabited

namespace Duration

def zero : Duration := ⟨0⟩

/-- The duration in nanoseconds, as far as a word can hold it. -/
def word (d : Duration) : UInt64 :=
  UInt64.ofNat (min d.nanos (0xFFFFFFFFFFFFFFFF))

/-- The decimals of a fraction of `10 ^ places`, without zeros at the end. -/
def decimals (places fraction : Nat) : List Char :=
  let digits := Nat.toDigits 10 fraction
  let padded := List.replicate (places - digits.length) '0' ++ digits
  (padded.reverse.dropWhile (· == '0')).reverse

/-- A number of units of `10 ^ places` nanoseconds. -/
def inUnits (places : Nat) (unit : String) (n : Nat) : String :=
  let fraction := n % tenTo places
  let whole := toString (n / tenTo places)
  if fraction = 0 then whole ++ unit
  else whole ++ "." ++ String.ofList (decimals places fraction) ++ unit

def text (d : Duration) : String :=
  if 1000000000 ≤ d.nanos then inUnits 9 "s" d.nanos
  else if 1000000 ≤ d.nanos then inUnits 6 "ms" d.nanos
  else if 1000 ≤ d.nanos then inUnits 3 "µs" d.nanos
  else inUnits 0 "ns" d.nanos

end Duration

end Equijoin
