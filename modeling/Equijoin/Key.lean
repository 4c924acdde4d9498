import Equijoin.Hash.Xxh3
import Equijoin.Text.Blank
import Equijoin.Text.Utf8
import Equijoin.Value

/-! # Keys

Two rows match if their keys are equal. A key is compared in a canonical form, in which a number is
the same whether its column holds integers or floats.

* `KeyAtom`: a key value in canonical form. `KeyAtom.ofValue` canonicalizes.
* `Key`: the key of a row, a list of atoms. A key with a missing value matches nothing.
* `Key.encode`, `Key.hash`: the bytes of a key, and their hash.
* `Key.shard`: the shard of a key.
-/

set_option autoImplicit false

namespace Equijoin

/-- A key value in canonical form. -/
inductive KeyAtom where
  /-- A missing value. -/
  | null
  /-- An integer, or a float that is an integer. -/
  | int (v : Int64)
  /-- The word of another float. -/
  | float (bits : UInt64)
  | bool (b : Bool)
  | text (s : String)
  deriving DecidableEq, Repr, Inhabited, Hashable

namespace KeyAtom

/-- The canonical form of a float. Integers strictly between `-2 ^ 63` and `2 ^ 63` are taken for
integers, and zero has no sign. -/
def ofFloat (x : Binary64) : KeyAtom :=
  if x.isNaN then .null
  else
    match x.wholeValue? with
    | some v =>
      if -0x8000000000000000 < v ∧ v < 0x8000000000000000 then .int (Int64.ofInt v)
      else .float x.bits
    | none => .float x.bits

/-- The canonical form of a value. Text is compared without surrounding blanks; blank text is a
missing value. -/
def ofValue : Value → KeyAtom
  | .null => .null
  | .int v => .int v
  | .float x => ofFloat x
  | .bool b => .bool b
  | .text s => if Text.trim s = "" then .null else .text (Text.trim s)

/-- The bytes of an atom: a tag, then its content; text is preceded by its length in bytes. -/
def encode : KeyAtom → Bytes
  | .null => [0]
  | .int v => 1 :: littleEndian v.toUInt64
  | .float bits => 2 :: littleEndian bits
  | .bool b => [3, if b then 1 else 0]
  | .text s =>
    let bytes := Utf8.encode s
    4 :: littleEndian bytes.length.toUInt64 ++ bytes

end KeyAtom

/-- The canonical form of the key of a row. -/
abbrev Key := List KeyAtom

namespace Key

/-- The key of a row, by the places of the key columns. A place outside the row holds nothing. -/
def ofRow (row : Row) (places : List Nat) : Key :=
  places.map fun i => ((row[i]?).map KeyAtom.ofValue).getD .null

def isJoinable (key : Key) : Bool :=
  !key.contains .null

def encode (key : Key) : Bytes :=
  key.flatMap KeyAtom.encode

/-- The seed of the hash. Another one would send keys to other shards. -/
def seed : UInt64 := 0x53484152445F4B59

def hash (key : Key) : UInt64 :=
  Xxh3.hash ⟨key.encode.toArray⟩ seed

def shard (key : Key) (count : Nat) : Nat :=
  key.hash.toNat % count

end Key

end Equijoin
