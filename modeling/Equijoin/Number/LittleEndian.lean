/-! # Words as bytes

* `lowBytes`: the lowest bytes of a number, the lowest first.
* `littleEndian`: the eight bytes of a word.
-/

set_option autoImplicit false

namespace Equijoin

/-- Some of the lowest bytes of a number, the lowest first. -/
def lowBytes : (count : Nat) → Nat → List UInt8
  | 0, _ => []
  | count + 1, n => UInt8.ofNat n :: lowBytes count (n / 256)

def littleEndian (w : UInt64) : List UInt8 :=
  lowBytes 8 w.toNat

theorem length_lowBytes (count n : Nat) : (lowBytes count n).length = count := by
  induction count generalizing n with
  | zero => rfl
  | succ count ih => simp [lowBytes, ih]

theorem length_littleEndian (w : UInt64) : (littleEndian w).length = 8 :=
  length_lowBytes 8 w.toNat

end Equijoin
