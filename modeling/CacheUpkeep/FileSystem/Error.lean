import CacheUpkeep.Text.Decimal

/-!
# Failures of file operations

The causes for which an operation on files fails, and the message of each.
-/

namespace CacheUpkeep

inductive IoError where
  | notFound
  | permissionDenied
  | exists
  | notDirectory
  | isDirectory
  | nameTooLong
  | tooManyLinks
  | execFormat
  | nulInPath
  | nulInArgument
  | notUtf8
  | other (message : String)
deriving DecidableEq, Repr

namespace IoError

def reason : IoError → String
  | .notFound => "No such file or directory"
  | .execFormat => "Exec format error"
  | .permissionDenied => "Permission denied"
  | .exists => "File exists"
  | .notDirectory => "Not a directory"
  | .isDirectory => "Is a directory"
  | .nameTooLong => "File name too long"
  | .tooManyLinks => "Too many levels of symbolic links"
  | .nulInPath => "file name contained an unexpected NUL byte"
  | .nulInArgument => "nul byte found in provided data"
  | .notUtf8 => "stream did not contain valid UTF-8"
  | .other message => message

def number? : IoError → Option Nat
  | .notFound => some 2
  | .execFormat => some 8
  | .permissionDenied => some 13
  | .exists => some 17
  | .notDirectory => some 20
  | .isDirectory => some 21
  | .nameTooLong => some 36
  | .tooManyLinks => some 40
  | .nulInPath | .nulInArgument | .notUtf8 | .other _ => none

def message (e : IoError) : String :=
  match e.number? with
  | some n => e.reason ++ " (os error " ++ Text.numeral n ++ ")"
  | none => e.reason

end IoError

end CacheUpkeep
