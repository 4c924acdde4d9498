import Equijoin.Key
import Equijoin.Proofs.Text.Headers

/-! # The bytes of keys

The bytes that are hashed tell keys apart, so that only the hash itself can send two keys to one
number. Tags and lengths say where an atom ends, whatever bytes its text has and whatever follows.

* `KeyAtom.Fits`: the length of a text can be written in one word.
* `encode_append_inj`: an atom is told by the first of the bytes that begin with its own.
* `encode_append_eq`: a key whose bytes begin with those of another key begins with that key.
* `encode_eq_iff`: keys with the same bytes, and keys with the same hash.
* `encode_overlong`: a text whose length cannot be written could be taken for another key.
-/

set_option autoImplicit false

namespace Equijoin

/-! ## Words -/

theorem lowBytes_inj {count m n : Nat} (hm : m < 256 ^ count) (hn : n < 256 ^ count)
    (h : lowBytes count m = lowBytes count n) : m = n := by
  induction count generalizing m n with
  | zero => omega
  | succ count ih =>
    obtain ⟨hlow, hrest⟩ := List.cons.inj h
    have hbyte : m % 256 = n % 256 := by simpa using congrArg UInt8.toNat hlow
    rw [pow_succ] at hm hn
    have hhigh : m / 256 = n / 256 := ih (by omega) (by omega) hrest
    omega

theorem littleEndian_injective : Function.Injective littleEndian := by
  intro v w h
  have hv : v.toNat < 256 ^ 8 := v.toNat_lt
  have hw : w.toNat < 256 ^ 8 := w.toNat_lt
  exact UInt64.toNat_inj.1 (lowBytes_inj hv hw h)

/-- A word is told by the first eight bytes. -/
theorem littleEndian_append_inj {v w : UInt64} {rest rest' : Bytes}
    (h : littleEndian v ++ rest = littleEndian w ++ rest') : v = w ∧ rest = rest' := by
  have hlength : (littleEndian v).length = (littleEndian w).length := by
    rw [length_littleEndian, length_littleEndian]
  obtain ⟨hword, hrest⟩ := List.append_inj h hlength
  exact ⟨littleEndian_injective hword, hrest⟩

/-! ## Atoms -/

namespace KeyAtom

/-- The length of a text can be written before it, as that of every text in memory can. -/
def Fits : KeyAtom → Prop
  | text s => (Utf8.encode s).length < 2 ^ 64
  | _ => True

instance : DecidablePred Fits
  | .text s => inferInstanceAs (Decidable ((Utf8.encode s).length < 2 ^ 64))
  | .null | .int _ | .float _ | .bool _ => isTrue trivial

variable {a b : KeyAtom} {rest rest' : Bytes}

theorem encode_ne_nil (a : KeyAtom) : a.encode ≠ [] := by
  cases a <;> simp [encode]

/-- The bytes of a text and of what follows it. The lengths say how many bytes are its own. -/
theorem encode_text_inj {s t : String} (hs : Fits (.text s)) (ht : Fits (.text t))
    (h : encode (.text s) ++ rest = encode (.text t) ++ rest') : s = t ∧ rest = rest' := by
  simp only [encode, List.cons_append, List.append_assoc] at h
  obtain ⟨hlength, hbytes⟩ := littleEndian_append_inj (List.cons.inj h).2
  have hsame : (Utf8.encode s).length = (Utf8.encode t).length := by
    have hword := congrArg UInt64.toNat hlength
    simp only [Nat.toUInt64, UInt64.toNat_ofNat'] at hword
    rwa [Nat.mod_eq_of_lt hs, Nat.mod_eq_of_lt ht] at hword
  obtain ⟨htext, hrest⟩ := List.append_inj hbytes hsame
  exact ⟨Csv.encode_injective htext, hrest⟩

/-- An atom is told by the first of the bytes that begin with its own. -/
theorem encode_append_inj (ha : a.Fits) (hb : b.Fits) (h : a.encode ++ rest = b.encode ++ rest') :
    a = b ∧ rest = rest' := by
  -- atoms of different kinds differ in the tag
  cases a <;> cases b <;> try exact absurd (List.cons.inj h).1 (by decide)
  case null.null => exact ⟨rfl, (List.cons.inj h).2⟩
  case int.int v w =>
    obtain ⟨hword, hrest⟩ := littleEndian_append_inj (List.cons.inj h).2
    cases v
    cases w
    exact ⟨congrArg (fun word => int ⟨word⟩) hword, hrest⟩
  case float.float v w =>
    obtain ⟨hword, hrest⟩ := littleEndian_append_inj (List.cons.inj h).2
    exact ⟨congrArg float hword, hrest⟩
  case bool.bool v w =>
    obtain ⟨hbyte, hrest⟩ := List.cons.inj (List.cons.inj h).2
    refine ⟨congrArg bool ?_, hrest⟩
    revert hbyte
    cases v <;> cases w <;> decide
  case text.text s t =>
    obtain ⟨rfl, hrest⟩ := encode_text_inj ha hb h
    exact ⟨rfl, hrest⟩

end KeyAtom

/-! ## Keys -/

namespace Key

variable {key key' : Key} {rest : Bytes}

theorem encode_cons (a : KeyAtom) (key : Key) : encode (a :: key) = a.encode ++ key.encode := rfl

theorem encode_eq_nil (h : key.encode = []) : key = [] := by
  cases key with
  | nil => rfl
  | cons a key => exact absurd (List.append_eq_nil_iff.1 h).1 a.encode_ne_nil

/-- A key whose bytes begin with those of another key begins with that key. -/
theorem encode_append_eq (hkey : ∀ a ∈ key, a.Fits) (hkey' : ∀ a ∈ key', a.Fits)
    (h : key.encode ++ rest = key'.encode) : ∃ more, key' = key ++ more ∧ rest = encode more := by
  induction key generalizing key' with
  | nil => exact ⟨key', rfl, h⟩
  | cons a key ih =>
    cases key' with
    | nil =>
      rw [encode_cons, List.append_assoc] at h
      exact absurd (List.append_eq_nil_iff.1 h).1 a.encode_ne_nil
    | cons b key' =>
      rw [encode_cons, encode_cons, List.append_assoc] at h
      obtain ⟨rfl, hrest⟩ := KeyAtom.encode_append_inj (hkey a (by simp)) (hkey' b (by simp)) h
      obtain ⟨more, rfl, hmore⟩ := ih (fun c hc => hkey c (by simp [hc]))
        (fun c hc => hkey' c (by simp [hc])) hrest
      exact ⟨more, rfl, hmore⟩

/-- The bytes that are hashed tell keys apart. The bytes of a key begin with those of another key
only if the key itself begins with the other, so that texts cannot be cut in another way; and two
keys have one hash only if they are the same, or if the hash takes two byte strings to one
number. -/
theorem encode_eq_iff (hkey : ∀ a ∈ key, a.Fits) (hkey' : ∀ a ∈ key', a.Fits) :
    (key.encode = key'.encode ↔ key = key') ∧
    (key.encode <+: key'.encode ↔ key <+: key') ∧
    (key.hash = key'.hash → key = key' ∨
      ∃ input input' : ByteArray, input.data.toList = key.encode ∧
        input'.data.toList = key'.encode ∧ input ≠ input' ∧
          Xxh3.hash input seed = Xxh3.hash input' seed) := by
  have hequal : key.encode = key'.encode ↔ key = key' := by
    constructor
    · intro h
      obtain ⟨more, rfl, hmore⟩ := encode_append_eq hkey hkey' ((List.append_nil _).trans h)
      rw [encode_eq_nil hmore.symm, List.append_nil]
    · exact congrArg encode
  refine ⟨hequal, ⟨?_, ?_⟩, fun hhash => ?_⟩
  · rintro ⟨rest, h⟩
    obtain ⟨more, rfl, -⟩ := encode_append_eq hkey hkey' h
    exact List.prefix_append key more
  · rintro ⟨more, rfl⟩
    exact ⟨encode more, List.flatMap_append.symm⟩
  · by_cases hsame : key = key'
    · exact .inl hsame
    · refine .inr ⟨⟨key.encode.toArray⟩, ⟨key'.encode.toArray⟩, rfl, rfl, fun hinput => ?_, hhash⟩
      have hbytes := congrArg (fun input : ByteArray => input.data.toList) hinput
      exact hsame (hequal.1 hbytes)

/-- Two keys of the same texts, cut in another way, with the same atoms after them. -/
theorem encode_eq_iff_cut :
    (∀ a ∈ ([.text "ab", .text "c", .null] : Key), a.Fits) ∧
    (∀ a ∈ ([.text "a", .text "bc", .null] : Key), a.Fits) ∧
      encode [.text "ab", .text "c", .null] ≠ encode [.text "a", .text "bc", .null] := by
  have hkey : ∀ a ∈ ([.text "ab", .text "c", .null] : Key), a.Fits := by decide
  have hkey' : ∀ a ∈ ([.text "a", .text "bc", .null] : Key), a.Fits := by decide
  exact ⟨hkey, hkey', fun h => absurd ((encode_eq_iff hkey hkey').1.1 h) (by decide)⟩

/-- A text of so many zeros that their number is lost has the bytes of an empty text with a missing
value for every zero after it. -/
theorem encode_overlong {n : Nat} (h : n % 2 ^ 64 = 0) :
    encode [.text (String.ofList (List.replicate n (Char.ofNat 0)))] =
      encode (.text "" :: List.replicate n .null) := by
  have hzeros : Utf8.encodeChars (List.replicate n (Char.ofNat 0)) = List.replicate n 0 := by
    rw [Utf8.encodeChars, List.flatMap_replicate]
    exact List.flatten_replicate_singleton
  have hnulls : encode (List.replicate n .null) = List.replicate n 0 := by
    rw [encode, List.flatMap_replicate]
    exact List.flatten_replicate_singleton
  have hlength : n.toUInt64 = 0 := by
    apply UInt64.toNat_inj.1
    rw [Nat.toUInt64, UInt64.toNat_ofNat', h]
    rfl
  have hempty : KeyAtom.encode (.text "") = 4 :: littleEndian 0 := rfl
  rw [encode_cons (.text ""), hnulls, hempty]
  simp [encode, KeyAtom.encode, Utf8.encode, hzeros, hlength]

end Key

end Equijoin
