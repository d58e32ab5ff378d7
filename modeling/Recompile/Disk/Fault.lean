/-!
# Faults of the file system

What the operating system answers when it refuses an operation: a name for each case, with its
number and its text.
-/

namespace Recompile

inductive Fault where
  | noEntry
  | badDescriptor
  | accessDenied
  | busy
  | exists
  | crossDevice
  | notDirectory
  | isDirectory
  | invalid
  | execFormat
  | noSpace
  | nameTooLong
  | notEmpty
  | tooManyLinks
  /-- A name holds a zero byte and is refused before it reaches the operating system. -/
  | zeroByte
  /-- The same in a command. -/
  | zeroByteInCommand
deriving DecidableEq, Repr

namespace Fault

def number? : Fault → Option Nat
  | noEntry => some 2
  | execFormat => some 8
  | badDescriptor => some 9
  | accessDenied => some 13
  | busy => some 16
  | «exists» => some 17
  | crossDevice => some 18
  | notDirectory => some 20
  | isDirectory => some 21
  | invalid => some 22
  | noSpace => some 28
  | nameTooLong => some 36
  | notEmpty => some 39
  | tooManyLinks => some 40
  | zeroByte => none
  | zeroByteInCommand => none

def text : Fault → String
  | noEntry => "No such file or directory"
  | execFormat => "Exec format error"
  | badDescriptor => "Bad file descriptor"
  | accessDenied => "Permission denied"
  | busy => "Device or resource busy"
  | «exists» => "File exists"
  | crossDevice => "Invalid cross-device link"
  | notDirectory => "Not a directory"
  | isDirectory => "Is a directory"
  | invalid => "Invalid argument"
  | noSpace => "No space left on device"
  | nameTooLong => "File name too long"
  | notEmpty => "Directory not empty"
  | tooManyLinks => "Too many levels of symbolic links"
  | zeroByte => "file name contained an unexpected NUL byte"
  | zeroByteInCommand => "nul byte found in provided data"

def message (f : Fault) : String :=
  match f.number? with
  | some n => f.text ++ " (os error " ++ toString n ++ ")"
  | none => f.text

end Fault

end Recompile
