/-! # Texts as bytes

Files hold bytes, cells hold texts. Both directions of the UTF-8 encoding are defined on lists.

* `encode`: the bytes of a text.
* `scalar?`: the character at the head of a byte list; overlong forms, surrogates and values past
  `U+10FFFF` are refused.
* `decode`: the text of a byte list, or the number of bytes before the first malformed sequence.
-/

set_option autoImplicit false

namespace Equijoin

/-- The content of a file. -/
abbrev Bytes := List UInt8

namespace Utf8

def encodeChars (cs : List Char) : Bytes :=
  cs.flatMap String.utf8EncodeChar

def encode (s : String) : Bytes :=
  encodeChars s.toList

/-! ## Reading -/

/-- A byte `10xxxxxx`. -/
def isTail (b : UInt8) : Bool :=
  0x80 ≤ b && b ≤ 0xBF

/-- The first two bytes of a sequence of three: not overlong, no surrogate. -/
def leadsThree (a b : UInt8) : Bool :=
  (a == 0xE0 && 0xA0 ≤ b && b ≤ 0xBF) || (0xE1 ≤ a && a ≤ 0xEC && isTail b) ||
    (a == 0xED && 0x80 ≤ b && b ≤ 0x9F) || (0xEE ≤ a && a ≤ 0xEF && isTail b)

/-- The first two bytes of a sequence of four: not overlong, at most `U+10FFFF`. -/
def leadsFour (a b : UInt8) : Bool :=
  (a == 0xF0 && 0x90 ≤ b && b ≤ 0xBF) || (0xF1 ≤ a && a ≤ 0xF3 && isTail b) ||
    (a == 0xF4 && 0x80 ≤ b && b ≤ 0x8F)

/-- The six payload bits of a byte `10xxxxxx`. -/
def payload (b : UInt8) : Nat :=
  b.toNat % 64

/-- The character at the head of a byte list, and what follows it. -/
def scalar? : Bytes → Option (Char × Bytes)
  | [] => none
  | a :: s₁ =>
    if a < 0x80 then some (Char.ofNat a.toNat, s₁)
    else match s₁ with
      | [] => none
      | b :: s₂ =>
        if 0xC2 ≤ a && a ≤ 0xDF && isTail b then
          some (Char.ofNat (a.toNat % 32 * 64 + payload b), s₂)
        else match s₂ with
          | [] => none
          | c :: s₃ =>
            if leadsThree a b && isTail c then
              some (Char.ofNat ((a.toNat % 16 * 64 + payload b) * 64 + payload c), s₃)
            else match s₃ with
              | [] => none
              | d :: s₄ =>
                if leadsFour a b && isTail c && isTail d then
                  some (Char.ofNat
                    (((a.toNat % 8 * 64 + payload b) * 64 + payload c) * 64 + payload d), s₄)
                else none

theorem length_lt_of_scalar? {s rest : Bytes} {c : Char} (h : scalar? s = some (c, rest)) :
    rest.length < s.length := by
  unfold scalar? at h
  split at h
  · cases h
  · split at h
    · obtain ⟨-, rfl⟩ := Prod.mk.inj (Option.some.inj h)
      simp only [List.length_cons]
      omega
    · split at h
      · cases h
      · split at h
        · obtain ⟨-, rfl⟩ := Prod.mk.inj (Option.some.inj h)
          simp only [List.length_cons]
          omega
        · split at h
          · cases h
          · split at h
            · obtain ⟨-, rfl⟩ := Prod.mk.inj (Option.some.inj h)
              simp only [List.length_cons]
              omega
            · split at h
              · cases h
              · split at h
                · obtain ⟨-, rfl⟩ := Prod.mk.inj (Option.some.inj h)
                  simp only [List.length_cons]
                  omega
                · cases h

/-- The characters of a byte list, put after those of `seen`; a malformed sequence is reported by
the number of bytes before it. -/
def decodeFrom (seen : List Char) (s : Bytes) (total : Nat) : Except Nat (List Char) :=
  match s with
  | [] => .ok seen.reverse
  | b :: r =>
    match h : scalar? (b :: r) with
    | none => .error (total - (b :: r).length)
    | some (c, rest) =>
      have : rest.length < (b :: r).length := length_lt_of_scalar? h
      decodeFrom (c :: seen) rest total
termination_by s.length
decreasing_by exact this

/-- The characters of a byte list, or the number of bytes before the first malformed sequence. -/
def decodeChars (s : Bytes) : Except Nat (List Char) :=
  decodeFrom [] s s.length

/-- The text of a byte list, or the number of bytes before the first malformed sequence. -/
def decode (s : Bytes) : Except Nat String :=
  (decodeChars s).map String.ofList

end Utf8

end Equijoin
