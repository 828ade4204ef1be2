import Constituency.Command.Session

/-!
# The command line

Reads the arguments, the grammar file and the standard input, and prints what the session answers.
-/
namespace Constituency.Command

/-- What there is to be found in a file. A directory can be opened and fails only when it is read,
and only errors of opening name the file. -/
def readContent (path : String) : IO (Except SystemError ByteArray) := do
  try
    return .ok (← IO.FS.readBinFile path)
  catch
    | .noFileOrDirectory .. => return .error .notFound
    | .permissionDenied .. => return .error .accessDenied
    | .invalidArgument .. => return .error .nameTooLong
    | .inappropriateType (some _) .. => return .error .notDirectory
    | _ => return .error .isDirectory

/-- Reads up to the next line feed or the end of the input. -/
partial def readLineFrom (input : IO.FS.Stream) (line : ByteArray) : IO ByteArray := do
  let byte ← input.read 1
  if byte.isEmpty then return line
  let line := line ++ byte
  if byte.data == #[10] then return line else readLineFrom input line

/-- Answers line by line until the input ends or a line cannot be read. -/
partial def serve (session : Session) : IO UInt32 := do
  IO.print prompt
  (← IO.getStdout).flush
  let line ← readLineFrom (← IO.getStdin) .empty
  if line.isEmpty then return 0
  match session.reply line with
  | .ok answer =>
    IO.print answer
    serve session
  | .error e =>
    let outcome := failed "" (fileDiagnostic e)
    IO.eprint outcome.stderr
    return outcome.code

/-- Prints what a run that has no session leaves behind. -/
def report (outcome : Outcome) : IO UInt32 := do
  IO.print outcome.stdout
  IO.eprint outcome.stderr
  return outcome.code

end Constituency.Command

open Constituency Constituency.Command in
/-- Runs the command. -/
def main (args : List String) : IO UInt32 := do
  match Arguments.read args with
  | .error stop => report (stop.outcome (← IO.appPath).toString)
  | .ok arguments =>
    match Session.begin arguments (← readContent arguments.file) with
    | .error e => report (failed "" (loadDiagnostic e))
    | .ok session => serve session
