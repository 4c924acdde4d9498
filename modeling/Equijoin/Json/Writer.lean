/-! # Writing JSON

Schemas are objects whose fields are lists of texts.

* `writeText`: a text in quotes. Quotes, backslashes and control characters are escaped, nothing
  else is.
* `writeCompact`: an object on one line, without spaces.
* `writePretty`: an object with a line for every item, indented by two spaces a level.
-/

set_option autoImplicit false

namespace Equijoin.Json

/-- The lower-case hexadecimal digit of a number below sixteen. -/
def hexDigit (n : Nat) : Char :=
  Nat.digitChar n

def writeChar (c : Char) : List Char :=
  match c with
  | '"' => ['\\', '"']
  | '\\' => ['\\', '\\']
  | '\x08' => ['\\', 'b']
  | '\x0c' => ['\\', 'f']
  | '\n' => ['\\', 'n']
  | '\r' => ['\\', 'r']
  | '\t' => ['\\', 't']
  | c =>
    if c.toNat < 0x20 then
      ['\\', 'u', '0', '0', hexDigit (c.toNat / 16), hexDigit (c.toNat % 16)]
    else [c]

def writeText (s : String) : List Char :=
  '"' :: s.toList.flatMap writeChar ++ ['"']

/-- The fields of an object whose values are lists of texts. -/
abbrev TextLists := List (String × List String)

def compactList (xs : List String) : List Char :=
  '[' :: [','].intercalate (xs.map writeText) ++ [']']

def writeCompact (fields : TextLists) : List Char :=
  '\x7b' :: [','].intercalate
    (fields.map fun (name, xs) => writeText name ++ ':' :: compactList xs) ++ ['\x7d']

/-- Parts on lines of their own between two brackets; `margin` precedes the closing one. -/
def bracketed (opening closing : Char) (margin : List Char) (parts : List (List Char)) :
    List Char :=
  if parts.isEmpty then [opening, closing]
  else
    let line := '\n' :: ' ' :: ' ' :: margin
    opening :: line ++ (',' :: line).intercalate parts ++ '\n' :: margin ++ [closing]

def writePretty (fields : TextLists) : List Char :=
  bracketed '\x7b' '\x7d' [] (fields.map fun (name, xs) =>
    writeText name ++ ':' :: ' ' :: bracketed '[' ']' [' ', ' '] (xs.map writeText))

end Equijoin.Json
