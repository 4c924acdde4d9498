import Mathlib.Data.List.Basic
import Equijoin.Text.Utf8

/-! # Texts survive their encoding

* `scalar?_encodeChar`: the bytes of a character are read as that character.
* `decode_encode`: the bytes of a text are read as that text.
* `encode_of_decode`: no other bytes are.
-/

set_option autoImplicit false

namespace Equijoin.Utf8

theorem toNat_byte {n : Nat} (h : n < 256) : (UInt8.ofNat n).toNat = n := by
  rw [UInt8.toNat_ofNat', Nat.mod_eq_of_lt h]

theorem toNat_bounds (c : Char) :
    c.val.toNat < 0xD800 ∨ 0xDFFF < c.val.toNat ∧ c.val.toNat < 0x110000 := by
  have := c.valid
  simpa [UInt32.isValidChar, Nat.isValidChar] using this

theorem isTail_byte (n : Nat) : isTail (UInt8.ofNat (n % 64 + 128)) = true := by
  have hn : (UInt8.ofNat (n % 64 + 128)).toNat = n % 64 + 128 := toNat_byte (by omega)
  simp only [isTail, Bool.and_eq_true, decide_eq_true_eq, UInt8.le_iff_toNat_le, hn]
  have h₁ : (0x80 : UInt8).toNat = 128 := rfl
  have h₂ : (0xBF : UInt8).toNat = 191 := rfl
  omega

theorem payload_byte (n : Nat) : payload (UInt8.ofNat (n % 64 + 128)) = n % 64 := by
  rw [payload, toNat_byte (by omega)]
  omega

theorem scalar?_one {v : Nat} (h : v ≤ 0x7F) (rest : Bytes) :
    scalar? (UInt8.ofNat v :: rest) = some (Char.ofNat v, rest) := by
  have ha : (UInt8.ofNat v).toNat = v := toNat_byte (by omega)
  generalize UInt8.ofNat v = a at ha
  have hlt : a < 0x80 := by
    simp only [UInt8.lt_iff_toNat_lt, ha, UInt8.reduceToNat]
    omega
  simp only [scalar?, hlt, if_true, ha]

theorem scalar?_two {v : Nat} (h : 0x7F < v) (h' : v ≤ 0x7FF) (rest : Bytes) :
    scalar? (UInt8.ofNat (v / 64 % 32 + 192) :: UInt8.ofNat (v % 64 + 128) :: rest) =
      some (Char.ofNat v, rest) := by
  have ha : (UInt8.ofNat (v / 64 % 32 + 192)).toNat = v / 64 + 192 := by
    rw [toNat_byte (by omega)]
    omega
  have hb := isTail_byte v
  have hb' := payload_byte v
  generalize UInt8.ofNat (v / 64 % 32 + 192) = a at ha
  generalize UInt8.ofNat (v % 64 + 128) = b at hb hb'
  have hlt : ¬ a < 0x80 := by
    simp only [UInt8.lt_iff_toNat_lt, ha, UInt8.reduceToNat]
    omega
  have htwo : (0xC2 ≤ a && a ≤ 0xDF && isTail b) = true := by
    simp only [Bool.and_eq_true, decide_eq_true_eq, hb, and_true, UInt8.le_iff_toNat_le, ha,
      UInt8.reduceToNat]
    omega
  have hvalue : a.toNat % 32 * 64 + payload b = v := by
    have hfirst : (v / 64 + 192) % 32 = v / 64 := by omega
    rw [ha, hb', hfirst]
    omega
  simp only [scalar?, hlt, if_false, htwo, if_true, hvalue]

theorem scalar?_three {v : Nat} (h : 0x7FF < v) (h' : v ≤ 0xFFFF)
    (hsurrogate : v < 0xD800 ∨ 0xDFFF < v) (rest : Bytes) :
    scalar? (UInt8.ofNat (v / 4096 % 16 + 224) :: UInt8.ofNat (v / 64 % 64 + 128) ::
      UInt8.ofNat (v % 64 + 128) :: rest) = some (Char.ofNat v, rest) := by
  have ha : (UInt8.ofNat (v / 4096 % 16 + 224)).toNat = v / 4096 + 224 := by
    rw [toNat_byte (by omega)]
    omega
  have hn : (UInt8.ofNat (v / 64 % 64 + 128)).toNat = v / 64 % 64 + 128 := toNat_byte (by omega)
  have hb := isTail_byte (v / 64)
  have hb' := payload_byte (v / 64)
  have hc := isTail_byte v
  have hc' := payload_byte v
  generalize UInt8.ofNat (v / 4096 % 16 + 224) = a at ha
  generalize UInt8.ofNat (v / 64 % 64 + 128) = b at hn hb hb'
  generalize UInt8.ofNat (v % 64 + 128) = c at hc hc'
  have hlt : ¬ a < 0x80 := by
    simp only [UInt8.lt_iff_toNat_lt, ha, UInt8.reduceToNat]
    omega
  have htwo : ¬ (0xC2 ≤ a && a ≤ 0xDF && isTail b) = true := by
    simp only [Bool.and_eq_true, decide_eq_true_eq, hb, UInt8.le_iff_toNat_le, ha,
      UInt8.reduceToNat]
    omega
  -- the second byte is bounded where the first alone does not rule out the value
  have hthree : leadsThree a b = true := by
    simp only [leadsThree, Bool.or_eq_true, Bool.and_eq_true, decide_eq_true_eq, hb, and_true,
      beq_iff_eq, ← UInt8.toNat_inj, UInt8.le_iff_toNat_le, ha, hn, UInt8.reduceToNat]
    omega
  have hvalue : (a.toNat % 16 * 64 + payload b) * 64 + payload c = v := by
    have hfirst : (v / 4096 + 224) % 16 = v / 4096 := by omega
    have hsecond : v / 4096 * 64 + v / 64 % 64 = v / 64 := by omega
    rw [ha, hb', hc', hfirst, hsecond]
    omega
  simp only [scalar?, hlt, if_false, htwo, Bool.false_eq_true, hthree, hc, Bool.and_self, if_true,
    hvalue]

theorem scalar?_four {v : Nat} (h : 0xFFFF < v) (h' : v < 0x110000) (rest : Bytes) :
    scalar? (UInt8.ofNat (v / 262144 % 8 + 240) :: UInt8.ofNat (v / 4096 % 64 + 128) ::
      UInt8.ofNat (v / 64 % 64 + 128) :: UInt8.ofNat (v % 64 + 128) :: rest) =
      some (Char.ofNat v, rest) := by
  have ha : (UInt8.ofNat (v / 262144 % 8 + 240)).toNat = v / 262144 + 240 := by
    rw [toNat_byte (by omega)]
    omega
  have hn : (UInt8.ofNat (v / 4096 % 64 + 128)).toNat = v / 4096 % 64 + 128 :=
    toNat_byte (by omega)
  have hb := isTail_byte (v / 4096)
  have hb' := payload_byte (v / 4096)
  have hc := isTail_byte (v / 64)
  have hc' := payload_byte (v / 64)
  have hd := isTail_byte v
  have hd' := payload_byte v
  generalize UInt8.ofNat (v / 262144 % 8 + 240) = a at ha
  generalize UInt8.ofNat (v / 4096 % 64 + 128) = b at hn hb hb'
  generalize UInt8.ofNat (v / 64 % 64 + 128) = c at hc hc'
  generalize UInt8.ofNat (v % 64 + 128) = d at hd hd'
  have hlt : ¬ a < 0x80 := by
    simp only [UInt8.lt_iff_toNat_lt, ha, UInt8.reduceToNat]
    omega
  have htwo : ¬ (0xC2 ≤ a && a ≤ 0xDF && isTail b) = true := by
    simp only [Bool.and_eq_true, decide_eq_true_eq, hb, UInt8.le_iff_toNat_le, ha,
      UInt8.reduceToNat]
    omega
  have hthree : ¬ leadsThree a b = true := by
    simp only [leadsThree, Bool.or_eq_true, Bool.and_eq_true, decide_eq_true_eq, hb, and_true,
      beq_iff_eq, ← UInt8.toNat_inj, UInt8.le_iff_toNat_le, ha, hn, UInt8.reduceToNat]
    omega
  have hfour : leadsFour a b = true := by
    simp only [leadsFour, Bool.or_eq_true, Bool.and_eq_true, decide_eq_true_eq, hb, and_true,
      beq_iff_eq, ← UInt8.toNat_inj, UInt8.le_iff_toNat_le, ha, hn, UInt8.reduceToNat]
    omega
  have hvalue : ((a.toNat % 8 * 64 + payload b) * 64 + payload c) * 64 + payload d = v := by
    have hfirst : (v / 262144 + 240) % 8 = v / 262144 := by omega
    have hsecond : v / 262144 * 64 + v / 4096 % 64 = v / 4096 := by omega
    have hthird : v / 4096 * 64 + v / 64 % 64 = v / 64 := by omega
    rw [ha, hb', hc', hd', hfirst, hsecond, hthird]
    omega
  simp only [scalar?, hlt, if_false, htwo, Bool.false_eq_true, hthree, Bool.false_and, hfour, hc,
    hd, Bool.and_self, if_true, hvalue]

/-- The bytes of a character are read as that character. -/
theorem scalar?_encodeChar (c : Char) (rest : Bytes) :
    scalar? (String.utf8EncodeChar c ++ rest) = some (c, rest) := by
  have hbounds := toNat_bounds c
  have hchar : Char.ofNat c.val.toNat = c := Char.ofNat_toNat c
  unfold String.utf8EncodeChar
  generalize c.val.toNat = v at hbounds hchar
  subst hchar
  dsimp only
  split
  · exact scalar?_one ‹_› rest
  · split
    · exact scalar?_two (by omega) ‹_› rest
    · split
      · exact scalar?_three (by omega) ‹_› (by omega) rest
      · exact scalar?_four (by omega) (by omega) rest

theorem decodeFrom_encodeChars (seen cs : List Char) (total : Nat) :
    decodeFrom seen (encodeChars cs) total = .ok (seen.reverse ++ cs) := by
  induction cs generalizing seen with
  | nil => simp [encodeChars, decodeFrom]
  | cons c cs ih =>
    have hscalar := scalar?_encodeChar c (encodeChars cs)
    have hbytes : encodeChars (c :: cs) = String.utf8EncodeChar c ++ encodeChars cs := rfl
    rw [hbytes]
    obtain ⟨b, bs, hb⟩ := List.exists_cons_of_ne_nil (String.utf8EncodeChar_ne_nil (c := c))
    rw [hb, List.cons_append] at hscalar ⊢
    rw [decodeFrom]
    split
    · rename_i hnone
      rw [hscalar] at hnone
      cases hnone
    · rename_i c' rest hsome
      rw [hscalar] at hsome
      cases hsome
      rw [ih]
      simp

/-- The bytes of a text are read as that text. -/
theorem decode_encode (s : String) : decode (encode s) = .ok s := by
  rw [decode, decodeChars, encode, decodeFrom_encodeChars]
  simp [Except.map]

/-! ## Bytes of a text that was read -/

theorem val_ofNat {n : Nat} (h : n < 0xD800 ∨ 0xDFFF < n ∧ n < 0x110000) :
    (Char.ofNat n).val.toNat = n := by
  unfold Char.ofNat
  rw [dif_pos h]
  rfl

theorem eq_byte {b : UInt8} {n : Nat} (h : n = b.toNat) : UInt8.ofNat n = b := by
  rw [h, UInt8.ofNat_toNat]

theorem isTail_iff {b : UInt8} : isTail b = true ↔ 128 ≤ b.toNat ∧ b.toNat ≤ 191 := by
  simp only [isTail, Bool.and_eq_true, decide_eq_true_eq, UInt8.le_iff_toNat_le, UInt8.reduceToNat]

variable {a b c d : UInt8}

theorem encodeChar_one (h : a < 0x80) : String.utf8EncodeChar (Char.ofNat a.toNat) = [a] := by
  simp only [UInt8.lt_iff_toNat_lt, UInt8.reduceToNat] at h
  unfold String.utf8EncodeChar
  dsimp only
  rw [val_ofNat (by omega), if_pos (by omega), eq_byte rfl]

theorem encodeChar_two (h : (0xC2 ≤ a && a ≤ 0xDF && isTail b) = true) :
    String.utf8EncodeChar (Char.ofNat (a.toNat % 32 * 64 + payload b)) = [a, b] := by
  simp only [Bool.and_eq_true, decide_eq_true_eq, UInt8.le_iff_toNat_le, UInt8.reduceToNat,
    isTail_iff] at h
  have hvalue : a.toNat % 32 * 64 + payload b = (a.toNat - 192) * 64 + (b.toNat - 128) := by
    unfold payload
    omega
  unfold String.utf8EncodeChar
  dsimp only
  rw [hvalue, val_ofNat (by omega), if_neg (by omega), if_pos (by omega), eq_byte (b := a) (by omega),
    eq_byte (b := b) (by omega)]

theorem encodeChar_three (h : (leadsThree a b && isTail c) = true) :
    String.utf8EncodeChar (Char.ofNat ((a.toNat % 16 * 64 + payload b) * 64 + payload c)) =
      [a, b, c] := by
  simp only [leadsThree, Bool.or_eq_true, Bool.and_eq_true, decide_eq_true_eq,
    UInt8.le_iff_toNat_le, UInt8.reduceToNat, isTail_iff, beq_iff_eq, ← UInt8.toNat_inj] at h
  have hvalue : (a.toNat % 16 * 64 + payload b) * 64 + payload c =
      (a.toNat - 224) * 4096 + (b.toNat - 128) * 64 + (c.toNat - 128) := by
    unfold payload
    omega
  unfold String.utf8EncodeChar
  dsimp only
  rw [hvalue, val_ofNat (by omega), if_neg (by omega), if_neg (by omega), if_pos (by omega),
    eq_byte (b := a) (by omega), eq_byte (b := b) (by omega), eq_byte (b := c) (by omega)]

theorem encodeChar_four (h : (leadsFour a b && isTail c && isTail d) = true) :
    String.utf8EncodeChar (Char.ofNat
      (((a.toNat % 8 * 64 + payload b) * 64 + payload c) * 64 + payload d)) = [a, b, c, d] := by
  simp only [leadsFour, Bool.or_eq_true, Bool.and_eq_true, decide_eq_true_eq,
    UInt8.le_iff_toNat_le, UInt8.reduceToNat, isTail_iff, beq_iff_eq, ← UInt8.toNat_inj] at h
  have hvalue : ((a.toNat % 8 * 64 + payload b) * 64 + payload c) * 64 + payload d =
      (a.toNat - 240) * 262144 + (b.toNat - 128) * 4096 + (c.toNat - 128) * 64 +
        (d.toNat - 128) := by
    unfold payload
    omega
  unfold String.utf8EncodeChar
  dsimp only
  rw [hvalue, val_ofNat (by omega), if_neg (by omega), if_neg (by omega), if_neg (by omega),
    eq_byte (b := a) (by omega), eq_byte (b := b) (by omega), eq_byte (b := c) (by omega),
    eq_byte (b := d) (by omega)]

/-- A character that is read stands there with its bytes. -/
theorem encodeChar_of_scalar? {s rest : Bytes} {ch : Char} (h : scalar? s = some (ch, rest)) :
    String.utf8EncodeChar ch ++ rest = s := by
  unfold scalar? at h
  split at h
  · cases h
  · split at h
    · rename_i hone
      cases h
      rw [encodeChar_one hone]
      rfl
    · split at h
      · cases h
      · split at h
        · rename_i htwo
          cases h
          rw [encodeChar_two htwo]
          rfl
        · split at h
          · cases h
          · split at h
            · rename_i hthree
              cases h
              rw [encodeChar_three hthree]
              rfl
            · split at h
              · cases h
              · split at h
                · rename_i hfour
                  cases h
                  rw [encodeChar_four hfour]
                  rfl
                · cases h

theorem encodeChars_of_decodeFrom {seen cs : List Char} {s : Bytes} {total : Nat}
    (h : decodeFrom seen s total = .ok cs) :
    ∃ more, cs = seen.reverse ++ more ∧ encodeChars more = s := by
  fun_induction decodeFrom seen s total with
  | case1 seen =>
    cases h
    exact ⟨[], (List.append_nil _).symm, rfl⟩
  | case2 seen b r hnone => cases h
  | case3 seen b r ch rest hsome _ ih =>
    obtain ⟨more, rfl, hmore⟩ := ih h
    refine ⟨ch :: more, by simp, ?_⟩
    rw [← encodeChar_of_scalar? hsome, ← hmore]
    rfl

/-- Bytes that are read as a text are the bytes of this text. -/
theorem encode_of_decode {s : Bytes} {t : String} (h : decode s = .ok t) : encode t = s := by
  unfold decode decodeChars at h
  cases hcs : decodeFrom [] s s.length with
  | error n =>
    rw [hcs] at h
    cases h
  | ok cs =>
    rw [hcs] at h
    cases h
    obtain ⟨more, rfl, hmore⟩ := encodeChars_of_decodeFrom hcs
    rw [encode, String.toList_ofList]
    exact hmore

end Equijoin.Utf8
