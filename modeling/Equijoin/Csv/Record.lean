import Equijoin.Text.Utf8

/-! # Delimited records

A delimited text is a sequence of records, each a sequence of fields. A delimiter ends a field; a
carriage return, a line feed or both end a record; empty lines are no records. A field that starts
with a quote runs to the next quote that is not doubled, and may hold delimiters and line ends.

* `Mode`, `step`: what one byte does, by where the reader stands.
* `scan`: the records of a text, each with the position where reading it began.
* `writeRecord`: the line of a record. A field is quoted only where it has to be.
-/

set_option autoImplicit false

namespace Equijoin.Csv

def quoteByte : UInt8 := 34

/-- The line feed, which ends written records. -/
def lineFeed : UInt8 := 10

def carriageReturn : UInt8 := 13

/-- A byte that ends a record outside quotes. -/
def isTerminator (b : UInt8) : Bool :=
  b == carriageReturn || b == lineFeed

/-! ## Reading -/

/-- Where the reader stands between two bytes. -/
inductive Mode where
  /-- Before a record. -/
  | record
  /-- Before a field. -/
  | field
  /-- In a field, outside quotes. -/
  | plain
  /-- In a field, between quotes. -/
  | quoted
  /-- After a quote that ends the quoted part, or is the first of a doubled one. -/
  | quoteSeen
  /-- After a carriage return that ended a record: a line feed belongs to it. -/
  | carriage
  deriving DecidableEq, Repr

/-- What a byte does. -/
inductive Action where
  /-- The byte is no part of a field. -/
  | skip (next : Mode)
  /-- The byte is part of the field. -/
  | copy (next : Mode)
  /-- The field is complete. -/
  | endField
  /-- The field and the record are complete. -/
  | endRecord (next : Mode)
  deriving DecidableEq, Repr

/-- A byte in a field, outside quotes. -/
def stepPlain (delimiter b : UInt8) : Action :=
  if b == delimiter then .endField
  else if isTerminator b then .endRecord (if b == carriageReturn then .carriage else .record)
  else .copy .plain

/-- A byte before a field. -/
def stepField (delimiter b : UInt8) : Action :=
  if b == quoteByte then .skip .quoted else stepPlain delimiter b

/-- A byte before a record. -/
def stepRecord (delimiter b : UInt8) : Action :=
  if isTerminator b then .skip .record else stepField delimiter b

def step (delimiter : UInt8) (mode : Mode) (b : UInt8) : Action :=
  match mode with
  | .record => stepRecord delimiter b
  | .field => stepField delimiter b
  | .plain => stepPlain delimiter b
  | .quoted => if b == quoteByte then .skip .quoteSeen else .copy .quoted
  | .quoteSeen => if b == quoteByte then .copy .quoted else stepPlain delimiter b
  | .carriage => if b == lineFeed then .skip .record else stepRecord delimiter b

/-- A place in a text: records and bytes before it, and lines up to it. -/
structure Position where
  record : Nat
  line : Nat
  byte : Nat
  deriving DecidableEq, Repr

def Position.origin : Position := ⟨0, 1, 0⟩

def Position.after (p : Position) (b : UInt8) : Position :=
  { p with line := if b == lineFeed then p.line + 1 else p.line, byte := p.byte + 1 }

/-- The fields of a record, and the place where reading it began. -/
structure Record where
  fields : List Bytes
  start : Position
  deriving DecidableEq, Repr

/-- The records of the rest of a text. `field` and `fields` hold what has been read of the current
record, last things first; `start` is where the record began and `here` the current place. -/
def scanFrom (delimiter : UInt8) (mode : Mode) (field : Bytes) (fields : List Bytes)
    (start here : Position) : Bytes → List Record
  | [] =>
    match mode with
    | .record | .carriage => []
    | _ => [⟨(field.reverse :: fields).reverse, start⟩]
  | b :: rest =>
    let here := here.after b
    match step delimiter mode b with
    | .skip next => scanFrom delimiter next field fields start here rest
    | .copy next => scanFrom delimiter next (b :: field) fields start here rest
    | .endField => scanFrom delimiter .field [] (field.reverse :: fields) start here rest
    | .endRecord next =>
      let after := { here with record := here.record + 1 }
      ⟨(field.reverse :: fields).reverse, start⟩ ::
        scanFrom delimiter next [] [] after after rest

/-- The records of a text. A byte order mark at its start is passed over, but counted. -/
def scan (delimiter : UInt8) (text : Bytes) : List Record :=
  match text with
  | 0xEF :: 0xBB :: 0xBF :: rest =>
    scanFrom delimiter .record [] [] .origin { Position.origin with byte := 3 } rest
  | text => scanFrom delimiter .record [] [] .origin .origin text

/-! ## Writing -/

/-- A byte that a field may hold only between quotes. -/
def needsQuotes (delimiter b : UInt8) : Bool :=
  b == delimiter || b == quoteByte || isTerminator b

/-- The bytes of a field between quotes, without the quotes around it: a quote is doubled. -/
def doubleQuotes (field : Bytes) : Bytes :=
  field.flatMap fun b => if b == quoteByte then [quoteByte, quoteByte] else [b]

def writeField (delimiter : UInt8) (field : Bytes) : Bytes :=
  if field.any (needsQuotes delimiter) then quoteByte :: doubleQuotes field ++ [quoteByte]
  else field

/-- A record as it is written. A line that would be empty, which no reader takes for a record, gets
an empty quoted field. -/
def writeRecord (delimiter : UInt8) (fields : List Bytes) : Bytes :=
  let line := [delimiter].intercalate (fields.map (writeField delimiter))
  (if line.isEmpty then [quoteByte, quoteByte] else line) ++ [lineFeed]

end Equijoin.Csv
