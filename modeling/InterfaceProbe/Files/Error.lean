/-
# File errors

The reasons for which an operation on files or on programs can fail, each with
its number and wording.  An error may carry the path it arose at.
-/

import InterfaceProbe.Decimal.Numeral
import InterfaceProbe.Text.Debug

namespace InterfaceProbe

/-- Why an operation on the file tree failed. -/
inductive FileError
  | notFound
  | argumentTooLong
  | badFormat
  | denied
  | alreadyExists
  | notADirectory
  | isADirectory
  | nameTooLong
  /-- A path with a null character names nothing. -/
  | nullInPath
  /-- Neither may a program or its arguments hold one. -/
  | nullInArgument
  /-- No free name was found for a new entry. -/
  | namesExhausted
  /-- A reason known by its wording only. -/
  | other (text : String)
  /-- An error together with the path it arose at. -/
  | at (error : FileError) (path : String)
  deriving DecidableEq, Repr

namespace FileError

/-- A reason with the number it is known by. -/
def numbered (reason : String) (number : Nat) : String :=
  reason ++ " (os error " ++ Decimal.numeral number ++ ")"

/-- The wording of an error. -/
def message : FileError → String
  | notFound => numbered "No such file or directory" 2
  | argumentTooLong => numbered "Argument list too long" 7
  | badFormat => numbered "Exec format error" 8
  | denied => numbered "Permission denied" 13
  | alreadyExists => numbered "File exists" 17
  | notADirectory => numbered "Not a directory" 20
  | isADirectory => numbered "Is a directory" 21
  | nameTooLong => numbered "File name too long" 36
  | nullInPath => "file name contained an unexpected NUL byte"
  | nullInArgument => "nul byte found in provided data"
  | namesExhausted => "too many temporary files exist"
  | other text => text
  | .at error path => error.message ++ " at path " ++ debugQuoted path

end FileError

end InterfaceProbe
