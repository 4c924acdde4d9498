import Equijoin.Csv.Record
import Equijoin.Files.IoFault

/-! # Sheets: a header and records of the same width

* `Sheet`: the header of a delimited text, and its other records; each record is either the texts
  of its fields or the fault that reading it meets. Nobody looks past the first fault.
* `Sheet.read`: a sheet of bytes. The width of a record is checked before its encoding.
* `writeLines`: the text of records; they must have the same width.
-/

set_option autoImplicit false

namespace Equijoin.Csv

/-- What is wrong with a delimited text. -/
inductive Fault where
  /-- The file cannot be read or written. -/
  | io (fault : IoFault)
  /-- A record is not as wide as the records before it; records that are being written have no
  place. -/
  | unequalLengths (start : Option Position) (expected actual : Nat)
  /-- A field is no text; `validUpTo` bytes of it are. -/
  | encoding (start : Position) (field validUpTo : Nat)
  deriving DecidableEq, Repr

def Fault.message : Fault → String
  | .io fault => fault.message
  | .unequalLengths none expected actual =>
    s!"CSV error: found record with {actual} fields, but the previous record has {expected} fields"
  | .unequalLengths (some p) expected actual =>
    s!"CSV error: record {p.record} (line: {p.line}, byte: {p.byte}): found record with " ++
      s!"{actual} fields, but the previous record has {expected} fields"
  | .encoding p field validUpTo =>
    s!"CSV parse error: record {p.record} (line {p.line}, field: {field}, byte: {p.byte}): " ++
      s!"invalid utf-8: invalid UTF-8 in field {field} near byte index {validUpTo}"

/-- The texts of fields, the first of which has the number `index`. -/
def decodeFields (start : Position) (index : Nat) : List Bytes → Except Fault (List String)
  | [] => .ok []
  | field :: fields =>
    match Utf8.decode field with
    | .error validUpTo => .error (.encoding start index validUpTo)
    | .ok text => (decodeFields start (index + 1) fields).map (text :: ·)

/-- The texts of a record that follows records of a width; a fault of the encoding is charged to
`place`. -/
def checkRecord (width : Nat) (place : Position) (r : Record) : Except Fault (List String) :=
  if r.fields.length = width then decodeFields place 0 r.fields
  else .error (.unequalLengths (some r.start) width r.fields.length)

/-- A header and the records below it. -/
structure Sheet where
  header : List String
  records : List (Except Fault (List String))

/-- The sheet of a text. A text without records has an empty header. -/
def Sheet.read (delimiter : UInt8) (text : Bytes) : Except Fault Sheet :=
  match scan delimiter text with
  | [] => .ok ⟨[], []⟩
  | header :: records =>
    (decodeFields header.start 0 header.fields).map fun names =>
      ⟨names, records.map fun r => checkRecord header.fields.length r.start r⟩

/-! ## Writing -/

def encodeFields (fields : List String) : List Bytes :=
  fields.map Utf8.encode

def writeLine (delimiter : UInt8) (fields : List String) : Bytes :=
  writeRecord delimiter (encodeFields fields)

/-- The lines of records, all of which are as wide as the first. -/
def writeLines (delimiter : UInt8) (records : List (List String)) : Except Fault Bytes :=
  match records with
  | [] => .ok []
  | first :: _ =>
    match records.find? fun r => r.length != first.length with
    | some r => .error (.unequalLengths none first.length r.length)
    | none => .ok (records.flatMap (writeLine delimiter))

end Equijoin.Csv
