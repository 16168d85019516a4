/-
Why a file operation fails, and how that is told.

A `FileFault` is the reason, a `FileError` says also what was tried and with
which path. The texts of the faults, and their numbers, are those of the
system.
-/
namespace TlsKeystore

/-- A reason for which a file operation fails. -/
inductive FileFault where
  | missing
  | taken
  | notDirectory
  | isDirectory
  | nameTooLong
  | nulInPath
  | notText
  | other (text : String)
deriving DecidableEq, Repr

def FileFault.text : FileFault → String
  | .missing => "No such file or directory (os error 2)"
  | .taken => "File exists (os error 17)"
  | .notDirectory => "Not a directory (os error 20)"
  | .isDirectory => "Is a directory (os error 21)"
  | .nameTooLong => "File name too long (os error 36)"
  | .nulInPath => "file name contained an unexpected NUL byte"
  | .notText => "stream did not contain valid UTF-8"
  | .other text => text

/-- What is done with a file. -/
inductive FileAction where
  | createDirectory
  | createFile
  | openFile
  | readFile
  | writeFile
deriving DecidableEq, Repr

def FileAction.text : FileAction → String
  | .createDirectory => "create directory"
  | .createFile => "create file"
  | .openFile => "open file"
  | .readFile => "read from file"
  | .writeFile => "write to file"

/-- A file operation that has failed. -/
structure FileError where
  action : FileAction
  path : String
  fault : FileFault
deriving DecidableEq, Repr

def FileError.message (e : FileError) : String :=
  "failed to " ++ e.action.text ++ " \x60" ++ e.path ++ "\x60: " ++ e.fault.text

end TlsKeystore
