import Equijoin.Files.IoFault
import Equijoin.Number.Shortest
import Equijoin.Text.Quoted

/-! # What is wrong with a JSON text

* `Json.Found`: a value of a kind that was not asked for.
* `Json.Fault`: an error of the notation, or a value that does not fit what is read.
-/

set_option autoImplicit false

namespace Equijoin.Json

/-- A value of a kind that was not asked for. -/
inductive Found where
  | null
  | bool (b : Bool)
  | integer (n : Int)
  | float (x : Binary64)
  | text (s : String)
  | list
  | object
  deriving DecidableEq, Repr

def Found.describe : Found → String
  | .null => "null"
  | .bool b => "boolean `" ++ (if b then "true" else "false") ++ "`"
  | .integer n => "integer `" ++ toString n ++ "`"
  | .float x => "floating point `" ++ x.text jsonLayout ++ "`"
  | .text s => "string " ++ Text.quote s
  | .list => "sequence"
  | .object => "map"

/-- What is wrong with a JSON text. -/
inductive Fault where
  /-- The text cannot be read or written. -/
  | io (fault : IoFault)
  | endInList
  | endInObject
  | endInString
  | endInValue
  | expectedColon
  | expectedListComma
  | expectedObjectComma
  | expectedWord
  | expectedValue
  | invalidEscape
  | invalidNumber
  | numberOutOfRange
  | controlCharacter
  | keyNotText
  | loneSurrogate
  | endOfSurrogates
  | trailingComma
  | trailingCharacters
  | tooDeep
  /-- A value is not of the kind that is read. -/
  | invalidType (found : Found) (expected : String)
  /-- A list that stands for named fields ends too early. -/
  | invalidLength (actual : Nat) (expected : String)
  | missingField (name : String)
  | duplicateField (name : String)
  /-- A column type has no such name. -/
  | unknownType (name : String)
  deriving DecidableEq, Repr

def Fault.message : Fault → String
  | .io fault => fault.message
  | .endInList => "EOF while parsing a list"
  | .endInObject => "EOF while parsing an object"
  | .endInString => "EOF while parsing a string"
  | .endInValue => "EOF while parsing a value"
  | .expectedColon => "expected `:`"
  | .expectedListComma => "expected `,` or `]`"
  | .expectedObjectComma => "expected `,` or `\x7d`"
  | .expectedWord => "expected ident"
  | .expectedValue => "expected value"
  | .invalidEscape => "invalid escape"
  | .invalidNumber => "invalid number"
  | .numberOutOfRange => "number out of range"
  | .controlCharacter => "control character (\\u0000-\\u001F) found while parsing a string"
  | .keyNotText => "key must be a string"
  | .loneSurrogate => "lone leading surrogate in hex escape"
  | .endOfSurrogates => "unexpected end of hex escape"
  | .trailingComma => "trailing comma"
  | .trailingCharacters => "trailing characters"
  | .tooDeep => "recursion limit exceeded"
  | .invalidType found expected =>
    "invalid type: " ++ found.describe ++ ", expected " ++ expected
  | .invalidLength actual expected =>
    "invalid length " ++ toString actual ++ ", expected " ++ expected
  | .missingField name => "missing field `" ++ name ++ "`"
  | .duplicateField name => "duplicate field `" ++ name ++ "`"
  | .unknownType name => "unknown column type '" ++ name ++ "'"

end Equijoin.Json
