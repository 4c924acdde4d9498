import Equijoin.Text.Printable

/-! # Quoted texts

Messages show names between double quotes, and lists of names between brackets.

* `quote`: a text between double quotes. A quote, a backslash, a tab, a carriage return, a line
  feed and a NUL have two-character escapes; any other character that is not printable is written
  `\u` with its hexadecimal number between braces.
* `quoteList`: quoted texts, separated by a comma and a space, between brackets.
-/

set_option autoImplicit false

namespace Equijoin.Text

/-- The lower-case hexadecimal digits of a number, without leading zeros. -/
def hexDigits (n : Nat) : List Char :=
  Nat.toDigits 16 n

def quoteChar (c : Char) : List Char :=
  match c with
  | '"' => ['\\', '"']
  | '\\' => ['\\', '\\']
  | '\t' => ['\\', 't']
  | '\r' => ['\\', 'r']
  | '\n' => ['\\', 'n']
  | c =>
    if c.toNat = 0 then ['\\', '0']
    else if isPrintable c then [c]
    else ['\\', 'u', '\x7b'] ++ hexDigits c.toNat ++ ['\x7d']

def quote (s : String) : String :=
  String.ofList ('"' :: s.toList.flatMap quoteChar ++ ['"'])

def quoteList (xs : List String) : String :=
  "[" ++ String.intercalate ", " (xs.map quote) ++ "]"

end Equijoin.Text
