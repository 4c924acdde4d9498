/-! # Powers

Powers of two and of ten, of a natural number each.
-/

set_option autoImplicit false

namespace Equijoin

def twoTo (n : Nat) : Nat := Nat.pow 2 n

def tenTo (n : Nat) : Nat := Nat.pow 10 n

end Equijoin
