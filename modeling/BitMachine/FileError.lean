/-!
# File errors

Why a file cannot be read as text or written, with the messages that users know from their
system.
-/

namespace BitMachine

/-- Why a file cannot be read as text or written. -/
inductive FileError where
  /-- There is no such file, or no such directory to put it in. -/
  | notFound
  /-- A part of the path that should be a directory is a file. -/
  | notADirectory
  /-- The path names a directory. -/
  | isADirectory
  /-- The path, or a name in it, is longer than the system allows. -/
  | nameTooLong
  /-- The content is not UTF-8. -/
  | invalidText
  /-- The system gives another reason. -/
  | other (reason : String)
deriving DecidableEq

/-- The message for a file error. -/
def FileError.message : FileError → String
  | .notFound => "No such file or directory (os error 2)"
  | .notADirectory => "Not a directory (os error 20)"
  | .isADirectory => "Is a directory (os error 21)"
  | .nameTooLong => "File name too long (os error 36)"
  | .invalidText => "stream did not contain valid UTF-8"
  | .other reason => reason

end BitMachine
