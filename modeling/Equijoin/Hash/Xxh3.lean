import Equijoin.Number.LittleEndian

/-! # XXH3

The 64-bit hash XXH3 with a seed. The hash depends on nothing but the bytes and the seed, so two
processes that shard by it agree.

* `hash`: chooses one of four procedures by the length of the input.
* `short`: up to 16 bytes. `medium`: up to 128. `midsize`: up to 240. `long`: the rest, in stripes
  of 64 bytes that feed eight accumulators.
-/

set_option autoImplicit false

namespace Equijoin.Xxh3

/-! ## Constants -/

def prime32a : UInt64 := 0x9E3779B1
def prime32b : UInt64 := 0x85EBCA77
def prime32c : UInt64 := 0xC2B2AE3D
def prime64a : UInt64 := 0x9E3779B185EBCA87
def prime64b : UInt64 := 0xC2B2AE3D27D4EB4F
def prime64c : UInt64 := 0x165667B19E3779F9
def prime64d : UInt64 := 0x85EBCA77C2B2AE63
def prime64e : UInt64 := 0x27D4EB2F165667C5
def primeMixA : UInt64 := 0x165667919E3779F9
def primeMixB : UInt64 := 0x9FB21C651E98DF25

/-- The 192 bytes that the input is mixed with. -/
def secret : ByteArray := ⟨#[
  0xb8, 0xfe, 0x6c, 0x39, 0x23, 0xa4, 0x4b, 0xbe, 0x7c, 0x01, 0x81, 0x2c, 0xf7, 0x21, 0xad, 0x1c,
  0xde, 0xd4, 0x6d, 0xe9, 0x83, 0x90, 0x97, 0xdb, 0x72, 0x40, 0xa4, 0xa4, 0xb7, 0xb3, 0x67, 0x1f,
  0xcb, 0x79, 0xe6, 0x4e, 0xcc, 0xc0, 0xe5, 0x78, 0x82, 0x5a, 0xd0, 0x7d, 0xcc, 0xff, 0x72, 0x21,
  0xb8, 0x08, 0x46, 0x74, 0xf7, 0x43, 0x24, 0x8e, 0xe0, 0x35, 0x90, 0xe6, 0x81, 0x3a, 0x26, 0x4c,
  0x3c, 0x28, 0x52, 0xbb, 0x91, 0xc3, 0x00, 0xcb, 0x88, 0xd0, 0x65, 0x8b, 0x1b, 0x53, 0x2e, 0xa3,
  0x71, 0x64, 0x48, 0x97, 0xa2, 0x0d, 0xf9, 0x4e, 0x38, 0x19, 0xef, 0x46, 0xa9, 0xde, 0xac, 0xd8,
  0xa8, 0xfa, 0x76, 0x3f, 0xe3, 0x9c, 0x34, 0x3f, 0xf9, 0xdc, 0xbb, 0xc7, 0xc7, 0x0b, 0x4f, 0x1d,
  0x8a, 0x51, 0xe0, 0x4b, 0xcd, 0xb4, 0x59, 0x31, 0xc8, 0x9f, 0x7e, 0xc9, 0xd9, 0x78, 0x73, 0x64,
  0xea, 0xc5, 0xac, 0x83, 0x34, 0xd3, 0xeb, 0xc3, 0xc5, 0x81, 0xa0, 0xff, 0xfa, 0x13, 0x63, 0xeb,
  0x17, 0x0d, 0xdd, 0x51, 0xb7, 0xf0, 0xda, 0x49, 0xd3, 0x16, 0x55, 0x26, 0x29, 0xd4, 0x68, 0x9e,
  0x2b, 0x16, 0xbe, 0x58, 0x7d, 0x47, 0xa1, 0xfc, 0x8f, 0xf8, 0xb8, 0xd1, 0x7a, 0xd0, 0x31, 0xce,
  0x45, 0xcb, 0x3a, 0x8f, 0x95, 0x16, 0x04, 0x28, 0xaf, 0xd7, 0xfb, 0xca, 0xbb, 0x4b, 0x40, 0x7e]⟩

/-! ## Words -/

/-- The byte at a position, as a word; zero past the end. -/
def byteAt (b : ByteArray) (i : Nat) : UInt64 :=
  if h : i < b.size then b[i].toUInt64 else 0

/-- The four bytes from a position, the lowest first. -/
def read32 (b : ByteArray) (i : Nat) : UInt64 :=
  byteAt b i ||| (byteAt b (i + 1) <<< 8) ||| (byteAt b (i + 2) <<< 16) |||
    (byteAt b (i + 3) <<< 24)

/-- The eight bytes from a position, the lowest first. -/
def read64 (b : ByteArray) (i : Nat) : UInt64 :=
  read32 b i ||| (read32 b (i + 4) <<< 32)

def rotateLeft (x : UInt64) (k : UInt64) : UInt64 :=
  (x <<< k) ||| (x >>> (64 - k))

/-- The lowest four bytes of a word in reverse order. -/
def swap32 (x : UInt64) : UInt64 :=
  let byte (i : UInt64) : UInt64 := (x >>> (8 * i)) % 256
  (byte 0 <<< 24) ||| (byte 1 <<< 16) ||| (byte 2 <<< 8) ||| byte 3

def swap64 (x : UInt64) : UInt64 :=
  (swap32 x <<< 32) ||| swap32 (x >>> 32)

/-- The low half of a 128-bit product combined with its high half. -/
def foldedProduct (x y : UInt64) : UInt64 :=
  let p := x.toNat * y.toNat
  UInt64.ofNat p ^^^ UInt64.ofNat (p / 0x10000000000000000)

def avalanche (h : UInt64) : UInt64 :=
  let h := (h ^^^ (h >>> 37)) * primeMixA
  h ^^^ (h >>> 32)

/-- The final mixing of the shortest inputs. -/
def avalancheShort (h : UInt64) : UInt64 :=
  let h := (h ^^^ (h >>> 33)) * prime64b
  let h := (h ^^^ (h >>> 29)) * prime64c
  h ^^^ (h >>> 32)

/-! ## Short inputs -/

/-- Up to 16 bytes. -/
def short (input : ByteArray) (seed : UInt64) : UInt64 :=
  let len := input.size
  let size := UInt64.ofNat len
  if len > 8 then
    let flipLow := (read64 secret 24 ^^^ read64 secret 32) + seed
    let flipHigh := (read64 secret 40 ^^^ read64 secret 48) - seed
    let low := read64 input 0 ^^^ flipLow
    let high := read64 input (len - 8) ^^^ flipHigh
    avalanche (size + swap64 low + high + foldedProduct low high)
  else if len ≥ 4 then
    let seed := seed ^^^ (swap32 seed <<< 32)
    let flip := (read64 secret 8 ^^^ read64 secret 16) - seed
    let h := (read32 input (len - 4) + (read32 input 0 <<< 32)) ^^^ flip
    let h := (h ^^^ rotateLeft h 49 ^^^ rotateLeft h 24) * primeMixB
    let h := (h ^^^ ((h >>> 35) + size)) * primeMixB
    h ^^^ (h >>> 28)
  else if len ≥ 1 then
    let combined := (byteAt input 0 <<< 16) ||| (byteAt input (len / 2) <<< 24) |||
      byteAt input (len - 1) ||| (size <<< 8)
    avalancheShort (combined ^^^ ((read32 secret 0 ^^^ read32 secret 4) + seed))
  else
    avalancheShort (seed ^^^ (read64 secret 56 ^^^ read64 secret 64))

/-! ## Inputs up to 240 bytes -/

/-- Sixteen bytes of the input mixed with sixteen bytes of the secret. -/
def mix16 (input : ByteArray) (i : Nat) (k : Nat) (seed : UInt64) : UInt64 :=
  foldedProduct (read64 input i ^^^ (read64 secret k + seed))
    (read64 input (i + 8) ^^^ (read64 secret (k + 8) - seed))

/-- From 17 to 128 bytes: pairs of blocks from both ends, the inner ones first. -/
def medium (input : ByteArray) (seed : UInt64) : UInt64 :=
  let len := input.size
  let pair (acc : UInt64) (j : Nat) : UInt64 :=
    if 32 * j < len then
      acc + mix16 input (16 * j) (32 * j) seed + mix16 input (len - 16 * (j + 1)) (32 * j + 16) seed
    else acc
  avalanche ([3, 2, 1, 0].foldl pair (UInt64.ofNat len * prime64a))

/-- From 129 to 240 bytes: eight blocks, a mixing, then the others with a shifted secret. -/
def midsize (input : ByteArray) (seed : UInt64) : UInt64 :=
  let len := input.size
  let first := (List.range 8).foldl (fun acc i => acc + mix16 input (16 * i) (16 * i) seed)
    (UInt64.ofNat len * prime64a)
  let more := (List.range (len / 16 - 8)).foldl
    (fun acc i => acc + mix16 input (16 * (i + 8)) (16 * i + 3) seed) (avalanche first)
  avalanche (more + mix16 input (len - 16) 119 seed)

/-! ## Long inputs -/

/-- The secret of a seed. -/
def seededSecret (seed : UInt64) : ByteArray :=
  ⟨((List.range 12).flatMap fun i =>
    littleEndian (read64 secret (16 * i) + seed) ++
      littleEndian (read64 secret (16 * i + 8) - seed)).toArray⟩

/-- The eight accumulators at the start. -/
def initial : Array UInt64 :=
  #[prime32c, prime64a, prime64b, prime64c, prime64d, prime32b, prime64e, prime32a]

/-- A stripe of 64 bytes at `i`, mixed with the secret from `k` on. -/
def accumulate (input key : ByteArray) (acc : Array UInt64) (i k : Nat) : Array UInt64 :=
  (Array.range 8).map fun j =>
    let partner := if j % 2 = 0 then j + 1 else j - 1
    let mixed := read64 input (i + 8 * j) ^^^ read64 key (k + 8 * j)
    acc.getD j 0 + read64 input (i + 8 * partner) + (mixed % 0x100000000) * (mixed / 0x100000000)

/-- The mixing between two blocks of sixteen stripes. -/
def scramble (key : ByteArray) (acc : Array UInt64) : Array UInt64 :=
  (Array.range 8).map fun j =>
    let a := acc.getD j 0
    (a ^^^ (a >>> 47) ^^^ read64 key (128 + 8 * j)) * prime32a

/-- More than 240 bytes. -/
def long (input : ByteArray) (seed : UInt64) : UInt64 :=
  let len := input.size
  let key := seededSecret seed
  let stripes (acc : Array UInt64) (start count : Nat) : Array UInt64 :=
    (List.range count).foldl (fun acc n => accumulate input key acc (start + 64 * n) (8 * n)) acc
  let blocks := (len - 1) / 1024
  let acc := (List.range blocks).foldl
    (fun acc b => scramble key (stripes acc (1024 * b) 16)) initial
  let acc := stripes acc (1024 * blocks) ((len - 1 - 1024 * blocks) / 64)
  let acc := accumulate input key acc (len - 64) 121
  avalanche ((List.range 4).foldl
    (fun h i => h + foldedProduct (acc.getD (2 * i) 0 ^^^ read64 key (11 + 16 * i))
      (acc.getD (2 * i + 1) 0 ^^^ read64 key (19 + 16 * i))) (UInt64.ofNat len * prime64a))

def hash (input : ByteArray) (seed : UInt64) : UInt64 :=
  if input.size ≤ 16 then short input seed
  else if input.size ≤ 128 then medium input seed
  else if input.size ≤ 240 then midsize input seed
  else long input seed

end Equijoin.Xxh3
