/-! # Failures of file operations

* `IoFault`: what can go wrong with a path or with the content of a file.
* `IoFault.kind`: the name of the kind of failure.
* `IoFault.message`: the wording of the operating system.
-/

set_option autoImplicit false

namespace Equijoin

/-- Why a file operation failed. -/
inductive IoFault where
  /-- Nothing is there. -/
  | notFound
  /-- A step of the path goes through a file. -/
  | notADirectory
  /-- A directory stands where a file is needed. -/
  | isADirectory
  /-- The content of a file is no text. -/
  | invalidData
  /-- The path holds a character that no path may hold. -/
  | invalidInput
  /-- A name in the path is too long. -/
  | invalidFilename
  /-- The path names the directory it stands in, or the one above. -/
  | resourceBusy
  /-- A failure of another kind, with its wording. -/
  | other (kind text : String)
  deriving DecidableEq, Repr

namespace IoFault

def kind : IoFault → String
  | notFound => "NotFound"
  | notADirectory => "NotADirectory"
  | isADirectory => "IsADirectory"
  | invalidData => "InvalidData"
  | invalidInput => "InvalidInput"
  | invalidFilename => "InvalidFilename"
  | resourceBusy => "ResourceBusy"
  | other kind _ => kind

def message : IoFault → String
  | notFound => "No such file or directory (os error 2)"
  | notADirectory => "Not a directory (os error 20)"
  | isADirectory => "Is a directory (os error 21)"
  | invalidData => "stream did not contain valid UTF-8"
  | invalidInput => "file name contained an unexpected NUL byte"
  | invalidFilename => "File name too long (os error 36)"
  | resourceBusy => "Device or resource busy (os error 16)"
  | other _ text => text

end IoFault

end Equijoin
