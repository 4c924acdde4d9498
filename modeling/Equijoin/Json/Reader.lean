import Equijoin.Json.Fault
import Equijoin.Text.Utf8

/-! # Reading JSON

A JSON text is read from left to right into the shape that is asked for, and the first fault on the
way is the one that is reported.

* `Reader`: takes a value off the front of a text.
* `text`, `list`, `optional`: readers of simple shapes.
* `NamedField`, `record`: a reader of named fields; the fields may also be given as a list, in
  order.
* `skipValue`: passes over a value that nobody asked for, looking at its notation only.
* `parse`: a whole text.
-/

set_option autoImplicit false

namespace Equijoin.Json

/-- Takes a value off the front of a text. -/
abbrev Reader (α : Type) := List Char → Except Fault (α × List Char)

def isSpace (c : Char) : Bool :=
  c == ' ' || c == '\n' || c == '\t' || c == '\r'

def skipSpace (cs : List Char) : List Char :=
  cs.dropWhile isSpace

def word : List Char → List Char → Except Fault (List Char)
  | [], cs => .ok cs
  | _ :: _, [] => .error .endInValue
  | e :: es, c :: cs => if c = e then word es cs else .error .expectedWord

/-! ## Texts -/

def hexValue? (c : Char) : Option Nat :=
  if '0' ≤ c && c ≤ '9' then some (c.toNat - 48)
  else if 'a' ≤ c && c ≤ 'f' then some (c.toNat - 87)
  else if 'A' ≤ c && c ≤ 'F' then some (c.toNat - 55)
  else none

/-- Four hexadecimal digits. If they are not there, it matters whether four bytes are left. -/
def hexFour : Reader Nat := fun cs =>
  let failed : Except Fault (Nat × List Char) :=
    if (Utf8.encodeChars (cs.take 4)).length < 4 then .error .endInString
    else .error .invalidEscape
  match cs with
  | a :: b :: c :: d :: rest =>
    match hexValue? a, hexValue? b, hexValue? c, hexValue? d with
    | some a, some b, some c, some d => .ok (((a * 16 + b) * 16 + c) * 16 + d, rest)
    | _, _, _, _ => failed
  | _ => failed

def escaped? (c : Char) : Option Char :=
  match c with
  | '"' => some '"'
  | '\\' => some '\\'
  | '/' => some '/'
  | 'b' => some '\x08'
  | 'f' => some '\x0c'
  | 'n' => some '\n'
  | 'r' => some '\r'
  | 't' => some '\t'
  | _ => none

/-- The second half of a surrogate pair, with its escape. -/
def lowSurrogate (high : Nat) : Reader Char
  | [] => .error .endInString
  | '\\' :: [] => .error .endInString
  | '\\' :: 'u' :: cs => do
    let (low, rest) ← hexFour cs
    if 0xDC00 ≤ low && low ≤ 0xDFFF then
      .ok (Char.ofNat ((high - 0xD800) * 0x400 + (low - 0xDC00) + 0x10000), rest)
    else .error .loneSurrogate
  | _ => .error .endOfSurrogates

def escape : Reader Char
  | [] => .error .endInString
  | 'u' :: cs => do
    let (n, rest) ← hexFour cs
    if 0xDC00 ≤ n && n ≤ 0xDFFF then .error .loneSurrogate
    else if 0xD800 ≤ n && n ≤ 0xDBFF then lowSurrogate n rest
    else .ok (Char.ofNat n, rest)
  | c :: cs =>
    match escaped? c with
    | some e => .ok (e, cs)
    | none => .error .invalidEscape

/-- The rest of a text after its opening quote; `seen` holds its characters so far, the last one
first. Every step takes a character, so that the length of the input is enough fuel. -/
def textFrom : (fuel : Nat) → (seen : List Char) → Reader String
  | 0, _, _ => .error .endInString
  | _ + 1, _, [] => .error .endInString
  | fuel + 1, seen, c :: cs =>
    if c = '"' then .ok (String.ofList seen.reverse, cs)
    else if c = '\\' then do
      let (e, rest) ← escape cs
      textFrom fuel (e :: seen) rest
    else if c.toNat < 0x20 then .error .controlCharacter
    else textFrom fuel (c :: seen) cs

def textBody : Reader String := fun cs =>
  textFrom (cs.length + 1) [] cs

/-- Passes over a text after its opening quote; escapes need not stand for characters. -/
def skipTextFrom : (fuel : Nat) → List Char → Except Fault (List Char)
  | 0, _ => .error .endInString
  | _ + 1, [] => .error .endInString
  | fuel + 1, c :: cs =>
    if c = '"' then .ok cs
    else if c = '\\' then
      match cs with
      | [] => .error .endInString
      | 'u' :: cs => do
        let (_, rest) ← hexFour cs
        skipTextFrom fuel rest
      | e :: cs => if (escaped? e).isSome then skipTextFrom fuel cs else .error .invalidEscape
    else if c.toNat < 0x20 then .error .controlCharacter
    else skipTextFrom fuel cs

def skipText (cs : List Char) : Except Fault (List Char) :=
  skipTextFrom (cs.length + 1) cs

/-! ## Numbers -/

def digits (cs : List Char) : List Char × List Char :=
  cs.span Char.isDigit

/-- The number of the first digits that fits 64 bits, and how many digits are left over. -/
def significand : Nat → List Char → Nat × Nat
  | n, [] => (n, 0)
  | n, c :: cs =>
    let next := n * 10 + (c.toNat - 48)
    if next < 0x10000000000000000 then significand next cs else (n, cs.length + 1)

/-- A word multiplied or divided by powers of ten that are words themselves; each step rounds. -/
def scaleByTen : (fuel : Nat) → Binary64 → Int → Except Fault Binary64
  | 0, x, _ => .ok x
  | fuel + 1, x, e =>
    let power (k : Nat) : Binary64 := .ofNat (tenTo k)
    if e.natAbs ≤ 308 then
      if 0 ≤ e then
        let y := x.mul (power e.natAbs)
        if y.isInfinite then .error .numberOutOfRange else .ok y
      else .ok (x.div (power e.natAbs))
    else if x.significand = 0 then .ok x
    else if 0 ≤ e then .error .numberOutOfRange
    else scaleByTen fuel (x.div (power 308)) (e + 308)

/-- The number `significand * 10 ^ exponent`, with a sign. Three divisions by `1e308` leave
nothing of any significand. -/
def scaled (negative : Bool) (n : Nat) (exponent : Int) : Except Fault Found := do
  let x ← scaleByTen 5 (.ofNat n) exponent
  .ok (.float (if negative then x.neg else x))

/-- The largest power of ten that is told apart. -/
def exponentLimit : Nat := 0x7FFFFFFF

/-- A power of ten after its letter, for a significand with its own power of ten. -/
def exponentPart (negative : Bool) (n : Nat) (start : Int) : Reader Found := fun cs =>
  let (down, cs) : Bool × List Char :=
    match cs with
    | '+' :: r => (false, r)
    | '-' :: r => (true, r)
    | r => (false, r)
  match cs with
  | [] => .error .endInValue
  | c :: _ =>
    if !c.isDigit then .error .invalidNumber
    else
      let (ds, rest) := digits cs
      let e := ds.foldl (fun k d => k * 10 + (d.toNat - 48)) 0
      if exponentLimit < e then
        if n ≠ 0 && !down then .error .numberOutOfRange
        else .ok (.float (.zero negative), rest)
      else
        let total : Int := if down then start - e else start + e
        let total := max (-(exponentLimit : Int) - 1) (min total exponentLimit)
        (scaled negative n total).map (·, rest)

/-- What follows the digits before the point; `dropped` of them did not fit. -/
def afterWhole (negative : Bool) (n dropped : Nat) : Reader Found
  | '.' :: cs =>
    match digits cs with
    | ([], []) => .error .endInValue
    | ([], _ :: _) => .error .invalidNumber
    | (ds, rest) =>
      let (m, left) := significand n ds
      let e : Int := (dropped : Int) - ((ds.length - left : Nat) : Int)
      match rest with
      | 'e' :: rest | 'E' :: rest => exponentPart negative m e rest
      | rest => (scaled negative m e).map (·, rest)
  | 'e' :: cs | 'E' :: cs => exponentPart negative n dropped cs
  | cs =>
    if dropped ≠ 0 then (scaled negative n dropped).map (·, cs)
    else if !negative then .ok (.integer n, cs)
    else if n = 0 || 0x8000000000000000 < n then .ok (.float (Binary64.ofNat n).neg, cs)
    else .ok (.integer (-(n : Int)), cs)

def number (negative : Bool) : Reader Found
  | [] => .error .endInValue
  | c :: cs =>
    if c = '0' then
      match cs with
      | d :: _ => if d.isDigit then .error .invalidNumber else afterWhole negative 0 0 cs
      | [] => afterWhole negative 0 0 cs
    else if c.isDigit then
      let (ds, rest) := digits (c :: cs)
      let (n, dropped) := significand 0 ds
      afterWhole negative n dropped rest
    else .error .invalidNumber

/-- Passes over the digits of a power of ten after its letter. -/
def skipExponent (cs : List Char) : Except Fault (List Char) :=
  let cs :=
    match cs with
    | '+' :: r | '-' :: r => r
    | r => r
  match digits cs with
  | ([], _) => .error .invalidNumber
  | (_, rest) => .ok rest

/-- Passes over what follows the digits before the point. -/
def skipAfterWhole : List Char → Except Fault (List Char)
  | '.' :: cs =>
    match digits cs with
    | ([], _) => .error .invalidNumber
    | (_, 'e' :: rest) | (_, 'E' :: rest) => skipExponent rest
    | (_, rest) => .ok rest
  | 'e' :: cs | 'E' :: cs => skipExponent cs
  | cs => .ok cs

def skipNumber : List Char → Except Fault (List Char)
  | [] => .error .invalidNumber
  | c :: cs =>
    if c = '0' then
      match cs with
      | d :: _ => if d.isDigit then .error .invalidNumber else skipAfterWhole cs
      | [] => skipAfterWhole cs
    else if c.isDigit then skipAfterWhole (digits cs).2
    else .error .invalidNumber

/-! ## Simple shapes -/

/-- The fault of a value of another kind at the front of a text. Faults of the value itself come
first; lists and objects are not looked into. -/
def unexpected (expected : String) (cs : List Char) : Fault :=
  let found (r : Except Fault (Found × List Char)) : Fault :=
    match r with
    | .ok (v, _) => .invalidType v expected
    | .error fault => fault
  match cs with
  | 'n' :: r => found ((word ['u', 'l', 'l'] r).map (.null, ·))
  | 't' :: r => found ((word ['r', 'u', 'e'] r).map (.bool true, ·))
  | 'f' :: r => found ((word ['a', 'l', 's', 'e'] r).map (.bool false, ·))
  | '-' :: r => found (number true r)
  | '"' :: r => found ((textBody r).map fun (s, r) => (.text s, r))
  | '[' :: _ => .invalidType .list expected
  | '\x7b' :: _ => .invalidType .object expected
  | c :: r => if c.isDigit then found (number false (c :: r)) else .expectedValue
  | [] => .expectedValue

/-- A text, described by `expected` where there is none. -/
def text (expected : String) : Reader String := fun cs =>
  match skipSpace cs with
  | [] => .error .endInValue
  | '"' :: r => textBody r
  | r => .error (unexpected expected r)

def optional {α : Type} (value : Reader α) : Reader (Option α) := fun cs =>
  match skipSpace cs with
  | 'n' :: r => (word ['u', 'l', 'l'] r).map (none, ·)
  | r => (value r).map fun (a, r) => (some a, r)

/-- Whether another item of a list follows; the text then starts at the item. -/
def nextItem (first : Bool) (cs : List Char) : Except Fault (Bool × List Char) :=
  match skipSpace cs with
  | [] => .error .endInList
  | ']' :: r => .ok (false, ']' :: r)
  | c :: r =>
    if first then .ok (true, c :: r)
    else if c = ',' then
      match skipSpace r with
      | [] => .error .endInValue
      | ']' :: _ => .error .trailingComma
      | r => .ok (true, r)
    else .error .expectedListComma

def endList (cs : List Char) : Except Fault (List Char) :=
  match skipSpace cs with
  | [] => .error .endInList
  | ']' :: r => .ok r
  | ',' :: r =>
    match skipSpace r with
    | ']' :: _ => .error .trailingComma
    | _ => .error .trailingCharacters
  | _ => .error .trailingCharacters

/-- The items of a list after its bracket; every item takes a character. -/
def itemsFrom {α : Type} (item : Reader α) : (fuel : Nat) → (first : Bool) → Reader (List α)
  | 0, _, _ => .error .endInList
  | fuel + 1, first, cs => do
    let (more, cs) ← nextItem first cs
    if more then
      let (a, cs) ← item cs
      let (as, cs) ← itemsFrom item fuel false cs
      .ok (a :: as, cs)
    else .ok ([], cs)

def list {α : Type} (item : Reader α) : Reader (List α) := fun cs =>
  match skipSpace cs with
  | [] => .error .endInValue
  | '[' :: r => do
    let (as, r) ← itemsFrom item (r.length + 1) true r
    .ok (as, ← endList r)
  | r => .error (unexpected "a sequence" r)

/-! ## Values that nobody asked for -/

/-- What surrounds a value. -/
inductive Enclosing where
  | list
  | object
  deriving DecidableEq, Repr

/-- What is due next. -/
inductive Due where
  /-- A value, or the end of a list that has just begun. -/
  | value
  /-- A key, or the end of an object that has just begun. -/
  | key
  /-- A comma or an end. -/
  | comma

/-- The name of a field, its colon, and what follows. -/
def skipKey (cs : List Char) : Except Fault (List Char) :=
  match skipSpace cs with
  | [] => .error .endInObject
  | '"' :: r => do
    match skipSpace (← skipText r) with
    | [] => .error .endInObject
    | ':' :: r => .ok r
    | _ => .error .expectedColon
  | _ => .error .keyNotText

/-- Passes over a value inside of `outer`, the innermost first, and over the rest of all of these.
Every step takes a character. -/
def skipFrom : (fuel : Nat) → Due → (outer : List Enclosing) → List Char →
    Except Fault (List Char)
  | 0, _, _, _ => .error .endInValue
  | fuel + 1, .value, outer, cs =>
    let closed (r : Except Fault (List Char)) : Except Fault (List Char) :=
      r.bind (skipFrom fuel .comma outer)
    match skipSpace cs with
    | [] => .error .endInValue
    | 'n' :: r => closed (word ['u', 'l', 'l'] r)
    | 't' :: r => closed (word ['r', 'u', 'e'] r)
    | 'f' :: r => closed (word ['a', 'l', 's', 'e'] r)
    | '-' :: r => closed (skipNumber r)
    | '"' :: r => closed (skipText r)
    | '[' :: r =>
      match skipSpace r with
      | [] => .error .endInList
      | ']' :: r => skipFrom fuel .comma outer r
      | r => skipFrom fuel .value (.list :: outer) r
    | '\x7b' :: r =>
      match skipSpace r with
      | [] => .error .endInObject
      | '\x7d' :: r => skipFrom fuel .comma outer r
      | r => skipFrom fuel .key (.object :: outer) r
    | c :: r => if c.isDigit then closed (skipNumber (c :: r)) else .error .expectedValue
  | fuel + 1, .key, outer, cs => (skipKey cs).bind (skipFrom fuel .value outer)
  | _ + 1, .comma, [], cs => .ok cs
  | fuel + 1, .comma, .list :: outer, cs =>
    match skipSpace cs with
    | [] => .error .endInList
    | ',' :: r => skipFrom fuel .value (.list :: outer) r
    | ']' :: r => skipFrom fuel .comma outer r
    | _ => .error .expectedListComma
  | fuel + 1, .comma, .object :: outer, cs =>
    match skipSpace cs with
    | [] => .error .endInObject
    | ',' :: r => skipFrom fuel .key (.object :: outer) r
    | '\x7d' :: r => skipFrom fuel .comma outer r
    | _ => .error .expectedObjectComma

def skipValue (cs : List Char) : Except Fault (List Char) :=
  skipFrom (2 * cs.length + 2) .value [] cs

/-! ## Named fields -/

/-- Whether another field of an object follows; the text then starts after the quote of its
name. -/
def nextKey (first : Bool) (cs : List Char) : Except Fault (Option (List Char)) :=
  let key (cs : List Char) : Except Fault (Option (List Char)) :=
    match cs with
    | [] => .error .endInValue
    | '"' :: r => .ok (some r)
    | '\x7d' :: _ => .error .trailingComma
    | _ => .error .keyNotText
  match skipSpace cs with
  | [] => .error .endInObject
  | '\x7d' :: _ => .ok none
  | c :: r =>
    if first then key (c :: r)
    else if c = ',' then key (skipSpace r)
    else .error .expectedObjectComma

def colon (cs : List Char) : Except Fault (List Char) :=
  match skipSpace cs with
  | [] => .error .endInObject
  | ':' :: r => .ok r
  | _ => .error .expectedColon

/-- The fields of an object after its brace, each of which changes a state. -/
def membersFrom {σ : Type} (member : String → σ → Reader σ) :
    (fuel : Nat) → (first : Bool) → σ → Reader σ
  | 0, _, _, _ => .error .endInObject
  | fuel + 1, first, s, cs => do
    match ← nextKey first cs with
    | none => .ok (s, skipSpace cs)
    | some cs =>
      let (name, cs) ← textBody cs
      let (s, cs) ← member name s cs
      membersFrom member fuel false s cs

def endObject (cs : List Char) : Except Fault (List Char) :=
  match skipSpace cs with
  | [] => .error .endInObject
  | '\x7d' :: r => .ok r
  | ',' :: _ => .error .trailingComma
  | _ => .error .trailingCharacters

/-- A field of a record of type `σ` that is read into a state of that type. -/
structure NamedField (σ : Type) where
  name : String
  /-- A second spelling of the name. -/
  spelling : Option String
  /-- Whether the record is incomplete without the field. -/
  required : Bool
  /-- Whether the field has been read. -/
  given : σ → Bool
  read : σ → Reader σ

def NamedField.hasName {σ : Type} (f : NamedField σ) (name : String) : Bool :=
  f.name == name || f.spelling == some name

/-- A named value: a field that has not been given before, or something to pass over. -/
def namedField {σ : Type} (fields : List (NamedField σ)) (name : String) (s : σ) : Reader σ :=
  fun cs =>
    match fields.find? (·.hasName name) with
    | some f => if f.given s then .error (.duplicateField f.name) else do f.read s (← colon cs)
    | none => do .ok (s, ← skipValue (← colon cs))

/-- The fields of a record, in order, as the items of a list after its bracket. -/
def positionalFields {σ : Type} (expected : String) :
    (index : Nat) → List (NamedField σ) → σ → Reader σ
  | _, [], s, cs => .ok (s, cs)
  | index, f :: fs, s, cs => do
    let (more, cs) ← nextItem (index == 0) cs
    if more then
      let (s, cs) ← f.read s cs
      positionalFields expected (index + 1) fs s cs
    else if f.required then .error (.invalidLength index expected)
    else positionalFields expected (index + 1) fs s cs

/-- A record of the given name: an object, or a list of its fields in order. -/
def record {σ : Type} (name : String) (fields : List (NamedField σ)) (init : σ) :
    Reader σ := fun cs =>
  match skipSpace cs with
  | [] => .error .endInValue
  | '[' :: r => do
    let elements := if fields.length = 1 then " element" else " elements"
    let expected := "struct " ++ name ++ " with " ++ toString fields.length ++ elements
    let (s, r) ← positionalFields expected 0 fields init r
    .ok (s, ← endList r)
  | '\x7b' :: r => do
    let (s, r) ← membersFrom (namedField fields) (r.length + 1) true init r
    match fields.find? fun f => f.required && !f.given s with
    | some f => .error (.missingField f.name)
    | none => .ok (s, ← endObject r)
  | r => .error (unexpected ("struct " ++ name) r)

/-! ## Whole texts -/

def parse {α : Type} (value : Reader α) (s : String) : Except Fault α := do
  let (a, rest) ← value s.toList
  if (skipSpace rest).isEmpty then .ok a else .error .trailingCharacters

end Equijoin.Json
