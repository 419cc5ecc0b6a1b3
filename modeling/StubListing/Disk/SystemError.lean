/-!
# Errors of the system

What can go wrong when a path is looked up or something is changed there, with the wording in
which messages give it. Most of them carry the number by which the system knows them.
-/
namespace StubListing

/-- Why the system refuses. -/
inductive SystemError where
  | notFound
  | alreadyThere
  | notADirectory
  | isADirectory
  | badRequest
  | nameTooLong
  | notEmpty
  | tooManyLinks
  | nullInPath
  | notText
  deriving DecidableEq, Repr, Inhabited

namespace SystemError

/-- A wording with the number of the error. -/
def numbered (wording : String) (number : Nat) : String :=
  wording ++ " (os error " ++ toString number ++ ")"

def message : SystemError → String
  | .notFound => numbered "No such file or directory" 2
  | .alreadyThere => numbered "File exists" 17
  | .notADirectory => numbered "Not a directory" 20
  | .isADirectory => numbered "Is a directory" 21
  | .badRequest => numbered "Invalid argument" 22
  | .nameTooLong => numbered "File name too long" 36
  | .notEmpty => numbered "Directory not empty" 39
  | .tooManyLinks => numbered "Too many levels of symbolic links" 40
  | .nullInPath => "file name contained an unexpected NUL byte"
  | .notText => "stream did not contain valid UTF-8"

end SystemError

end StubListing
