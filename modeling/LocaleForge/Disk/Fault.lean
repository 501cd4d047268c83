/-!
The reasons for which a file operation or the start of a program fails.
-/

namespace LocaleForge.Disk

/-- Why a file operation or the start of a program failed. -/
inductive Fault where
  | notFound
  | badExecutable
  | badDescriptor
  | accessDenied
  | busy
  | alreadyExists
  | notDirectory
  | isDirectory
  | invalidArgument
  | noSpace
  | nameTooLong
  | notEmpty
  | tooManyLinks
  /-- A path holds the character that ends texts for the system. -/
  | nulInPath
  /-- A program or an argument of it holds that character. -/
  | nulInArgument
  /-- A file read as text is not valid UTF-8. -/
  | notText
  /-- Only regular files are copied. -/
  | notRegular
deriving DecidableEq, Repr

namespace Fault

def reason : Fault → String
  | notFound => "No such file or directory"
  | badExecutable => "Exec format error"
  | badDescriptor => "Bad file descriptor"
  | accessDenied => "Permission denied"
  | busy => "Device or resource busy"
  | alreadyExists => "File exists"
  | notDirectory => "Not a directory"
  | isDirectory => "Is a directory"
  | invalidArgument => "Invalid argument"
  | noSpace => "No space left on device"
  | nameTooLong => "File name too long"
  | notEmpty => "Directory not empty"
  | tooManyLinks => "Too many levels of symbolic links"
  | nulInPath => "file name contained an unexpected NUL byte"
  | nulInArgument => "nul byte found in provided data"
  | notText => "stream did not contain valid UTF-8"
  | notRegular => "the source path is neither a regular file nor a symlink to a regular file"

/-- The number that the system gives to the fault, if it comes from there. -/
def code? : Fault → Option Nat
  | notFound => some 2
  | badExecutable => some 8
  | badDescriptor => some 9
  | accessDenied => some 13
  | busy => some 16
  | alreadyExists => some 17
  | notDirectory => some 20
  | isDirectory => some 21
  | invalidArgument => some 22
  | noSpace => some 28
  | nameTooLong => some 36
  | notEmpty => some 39
  | tooManyLinks => some 40
  | nulInPath | nulInArgument | notText | notRegular => none

def message (f : Fault) : String :=
  match f.code? with
  | some n => f.reason ++ " (os error " ++ toString n ++ ")"
  | none => f.reason

end Fault

end LocaleForge.Disk
