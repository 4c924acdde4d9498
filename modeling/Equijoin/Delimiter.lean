import Equijoin.Fault
import Equijoin.Files.FileTree
import Equijoin.Text.Blank

/-! # Finding the delimiter

The delimiter of a file is the first candidate that its first line holds, and holds as often as its
second line, if that is not blank.

* `Delimiter.detect?`: the delimiter of two lines.
* `Delimiter.sniff`: the delimiter of a file, if one is detected.
-/

set_option autoImplicit false

namespace Equijoin.Delimiter

/-- The comma, which is taken where none is detected. -/
def comma : UInt8 := 44

/-- Delimiters, in the order in which they are tried: comma, tabulator, semicolon, bar. -/
def candidates : List UInt8 := [comma, 9, 59, 124]

/-- The first line of a text, with its line feed, and the rest. -/
def cutLine : Bytes → Bytes × Bytes
  | [] => ([], [])
  | b :: rest =>
    if b = Csv.lineFeed then ([b], rest)
    else
      let (line, after) := cutLine rest
      (b :: line, after)

def detect? (header first : Bytes) (blankFirst : Bool) : Option UInt8 :=
  candidates.find? fun d =>
    let n := header.count d
    0 < n && (blankFirst || first.count d == n)

/-- The delimiter of a text, unless its first two lines are no text. -/
def detectIn (text : Bytes) : Except IoFault (Option UInt8) :=
  let (header, rest) := cutLine text
  let first := (cutLine rest).1
  match Utf8.decode header, Utf8.decode first with
  | .ok _, .ok s => .ok (detect? header first (Text.trim s = ""))
  | _, _ => .error .invalidData

def sniff (files : FileTree) (path : String) : Outcome (Option UInt8) :=
  (do detectIn (← files.read path)).mapError Fault.io

end Equijoin.Delimiter
