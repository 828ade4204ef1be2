/-!
# Why a file cannot be read

The operating system refuses to give the bytes of a file for one of a few causes, each with a
number, a kind and a wording of its own. A file that is given can still fail to be text.
-/
namespace Constituency

/-- Why the operating system gives no bytes. -/
inductive SystemError where
  | notFound
  | accessDenied
  | notDirectory
  | isDirectory
  | nameTooLong
deriving DecidableEq, Repr

namespace SystemError

/-- The number of an error. -/
def code : SystemError → Nat
  | notFound => 2
  | accessDenied => 13
  | notDirectory => 20
  | isDirectory => 21
  | nameTooLong => 36

/-- The kind of an error. -/
def kind : SystemError → String
  | notFound => "NotFound"
  | accessDenied => "PermissionDenied"
  | notDirectory => "NotADirectory"
  | isDirectory => "IsADirectory"
  | nameTooLong => "InvalidFilename"

/-- The wording of an error. -/
def wording : SystemError → String
  | notFound => "No such file or directory"
  | accessDenied => "Permission denied"
  | notDirectory => "Not a directory"
  | isDirectory => "Is a directory"
  | nameTooLong => "File name too long"

end SystemError

/-- Why a file has no text. -/
inductive FileError where
  | system (e : SystemError)
  | invalidEncoding
deriving DecidableEq, Repr

namespace FileError

/-- The message of an error. -/
def message : FileError → String
  | system e => e.wording ++ " (os error " ++ e.code.repr ++ ")"
  | invalidEncoding => "stream did not contain valid UTF-8"

/-- The text of bytes in UTF-8. -/
def decode (bytes : ByteArray) : Except FileError String :=
  match String.fromUTF8? bytes with
  | some text => .ok text
  | none => .error .invalidEncoding

/-- The text of a file, given what there was to be found. -/
def text (content : Except SystemError ByteArray) : Except FileError String := do
  decode (← content.mapError .system)

end FileError

end Constituency
