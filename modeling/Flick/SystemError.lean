/-!
# Failures of the operating system

What can go wrong outside the program, in the system's own words.
-/

namespace Flick

/-- A failure that the operating system reports. -/
inductive SystemError where
  | noSuchFile
  | notADirectory
  | isADirectory
  | nameTooLong
  | invalidText
  | addressInUse
  | unsupported
  | other (message : String)
  deriving DecidableEq

/-- The system's words for a failure. -/
def SystemError.message : SystemError → String
  | .noSuchFile => "No such file or directory (os error 2)"
  | .notADirectory => "Not a directory (os error 20)"
  | .isADirectory => "Is a directory (os error 21)"
  | .nameTooLong => "File name too long (os error 36)"
  | .invalidText => "stream did not contain valid UTF-8"
  | .addressInUse => "Address already in use (os error 98)"
  | .unsupported => "Function not implemented (os error 38)"
  | .other message => message

end Flick
