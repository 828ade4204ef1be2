import Constituency.Chart.Parsing
import Constituency.Decimal.Numeral

/-!
# Arguments of the command

The arguments name one grammar file and choose what is done with it. They are read from left to
right, and the first one that cannot be used, or that asks for help, ends the reading.
-/
namespace Constituency.Command

/-- What can be chosen. -/
structure Choices where
  showChart : Bool := false
  normalForm : Bool := false
  normalize : Bool := false
  smoothing : Option Float := none
  start : Option String := none
  beam : Nat := ({} : ParseOptions).beam
  maxSteps : Option UInt64 := none

/-- What is chosen for which file. -/
structure Arguments extends Choices where
  file : String

/-- What is wrong with the arguments. -/
inductive ArgumentError where
  | notEnough
  | beamWithoutNumber
  | stepsWithoutNumber
  | startWithoutSymbol
  | invalid
  | missingFile
deriving DecidableEq, Repr

/-- Why a command does not get to reading its file. -/
inductive Stop where
  | help
  | error (e : ArgumentError)
deriving DecidableEq, Repr

/-- The constant that is added to weights if none is given. -/
def defaultSmoothing : Float := 0.001

/-- Reads a count of sixty-four bits: digits, with a plus sign or without. -/
def readCount? (text : String) : Option UInt64 :=
  let ds := match text.toList with
    | '+' :: ds => ds
    | ds => ds
  let n := Decimal.valueOf ds
  if ds ≠ [] ∧ ds.all Char.isDigit ∧ n < UInt64.size then some n.toUInt64 else none

/-- Reads arguments behind others that made some choices and may have named a file. -/
def Arguments.readFrom (chosen : Choices) (file? : Option String) :
    List String → Except Stop Arguments
  | [] =>
    match file? with
    | some file => .ok { chosen with file }
    | none => .error (.error .missingFile)
  | "-h" :: _ | "--help" :: _ => .error .help
  | "-c" :: rest | "--chart" :: rest => readFrom { chosen with showChart := true } file? rest
  | "--cnf" :: rest => readFrom { chosen with normalForm := true } file? rest
  | "--normalize" :: rest => readFrom { chosen with normalize := true } file? rest
  | "--smooth" :: rest =>
    match rest with
    | constant :: more =>
      match Decimal.readFloat? constant with
      | some k => readFrom { chosen with smoothing := some k } file? more
      | none => readFrom { chosen with smoothing := some defaultSmoothing } file? (constant :: more)
    | [] => readFrom { chosen with smoothing := some defaultSmoothing } file? []
  | "-b" :: rest | "--beam" :: rest =>
    match rest with
    | number :: more =>
      match readCount? number with
      | some beam => readFrom { chosen with beam := beam.toNat } file? more
      | none => .error (.error .beamWithoutNumber)
    | [] => .error (.error .beamWithoutNumber)
  | "--max-steps" :: rest =>
    match rest with
    | number :: more =>
      match readCount? number with
      | some steps => readFrom { chosen with maxSteps := some steps } file? more
      | none => .error (.error .stepsWithoutNumber)
    | [] => .error (.error .stepsWithoutNumber)
  | "-s" :: rest | "--start" :: rest =>
    match rest with
    | start :: more => readFrom { chosen with start := some start } file? more
    | [] => .error (.error .startWithoutSymbol)
  | name :: rest =>
    match file? with
    | some _ => .error (.error .invalid)
    | none => readFrom chosen (some name) rest

/-- Reads the arguments of the command. -/
def Arguments.read (args : List String) : Except Stop Arguments :=
  if args.isEmpty then .error (.error .notEnough) else readFrom {} none args

/-- How the command is used. -/
def usage (program : String) : String :=
  "Usage: " ++ program ++ " FILE [options]

Options:
  -h, --help          Print this message
  -c, --chart         Print the parse chart (defaults to not printing)
  -b, --beam N        Keep at most N labels per chart cell, 0 for no limit (default 10)
  -s, --start SYMBOL  Root label (defaults to the first rule's left-hand side)
      --max-steps N   Give up after N rule applications
      --cnf           Convert the grammar to Chomsky Normal Form before parsing
      --normalize     Read weights as counts and normalize them per left-hand side
      --smooth [K]    Read weights as counts and apply add-K smoothing (default K "
    ++ String.ofList (DecimalText.text defaultSmoothing) ++ ")

Set RUST_LOG=debug to trace chart construction."

/-- The wording of an error. -/
def ArgumentError.reason : ArgumentError → String
  | notEnough => "not enough arguments"
  | beamWithoutNumber => "--beam needs a number"
  | stepsWithoutNumber => "--max-steps needs a number"
  | startWithoutSymbol => "--start needs a symbol"
  | invalid => "invalid arguments"
  | missingFile => "missing filename"

/-- The message of an error, with the usage of the command. -/
def ArgumentError.message (e : ArgumentError) (program : String) : String :=
  "argument error: " ++ e.reason ++ ".\n\n" ++ usage program

end Constituency.Command
