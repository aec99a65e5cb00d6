/-
  Why a file cannot be read or written, and the words for it.

  Key definitions include:
    * `Fault`
    * `Fault.message`
    * `Fault.ofCode?`
-/

namespace TeenyC

/- The causes that an operating system or a decoder gives. -/
inductive Fault where
| noSuchFile
| notDirectory
| isDirectory
| noSpace
| nameTooLong
| nulInPath
| notUnicode
| other (text : String)
deriving DecidableEq

namespace Fault

/- The cause in words. -/
def message : Fault → String
| .noSuchFile => "No such file or directory (os error 2)"
| .notDirectory => "Not a directory (os error 20)"
| .isDirectory => "Is a directory (os error 21)"
| .noSpace => "No space left on device (os error 28)"
| .nameTooLong => "File name too long (os error 36)"
| .nulInPath => "file name contained an unexpected NUL byte"
| .notUnicode => "stream did not contain valid UTF-8"
| .other text => text

/- The cause with a given number. -/
def ofCode? : Nat → Option Fault
| 2 => some .noSuchFile
| 20 => some .notDirectory
| 21 => some .isDirectory
| 28 => some .noSpace
| 36 => some .nameTooLong
| _ => none

end Fault

end TeenyC
