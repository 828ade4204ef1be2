import Constituency.Chart.Listing
import Constituency.Command.Arguments
import Constituency.File.Tree
import Constituency.GrammarFile.Content
import Constituency.Text.Diagnostic
import Constituency.Tree.Brackets
import Constituency.Tree.Outline

/-!
# Sessions

A session has read its grammar and answers sentences. Each line of the input is a sentence; its
answer depends on the words of the line alone. Before every line, and once more when the input has
ended, the command prints a prompt. The logarithm of doubles is a parameter, as elsewhere.
-/
namespace Constituency.Command

/-- What a run of the command leaves behind. -/
structure Outcome where
  stdout : String
  stderr : String
  code : UInt32
deriving DecidableEq, Repr

/-- A file error as a diagnostic shows it. -/
def fileDiagnostic : FileError → String
  | .system e =>
    "Os \x7b code: " ++ e.code.repr ++ ", kind: " ++ e.kind ++ ", message: "
      ++ Text.diagnostic e.wording ++ " \x7d"
  | .invalidEncoding =>
    "Error \x7b kind: InvalidData, message: "
      ++ Text.diagnostic FileError.invalidEncoding.message ++ " \x7d"

/-- An error of the rules as a diagnostic shows it. -/
def grammarDiagnostic (e : GrammarError Float) : String :=
  (if e.isMalformed then "MalformedGrammar" else "InvalidOption")
    ++ "(" ++ Text.diagnostic e.reason ++ ")"

/-- A reason for which there is no session, as a diagnostic shows it. -/
def loadDiagnostic : LoadError Float → String
  | .file e => fileDiagnostic e
  | .refused e => grammarDiagnostic e
  | e => Text.diagnostic e.message

/-- The outcome of a run that ends with an error behind some output. -/
def failed (stdout diagnostic : String) : Outcome :=
  { stdout, stderr := "Error: " ++ diagnostic ++ "\n", code := 1 }

/-- The outcome of a run that the arguments stop. -/
def Stop.outcome (program : String) : Stop → Outcome
  | help => { stdout := usage program ++ "\n", stderr := "", code := 0 }
  | error e => { stdout := "", stderr := e.message program ++ "\n", code := 255 }

/-- A grammar that answers sentences. -/
structure Session where
  grammar : Grammar Float
  options : ParseOptions
  showChart : Bool

/-- The rules with the weights that the arguments ask for. -/
def Arguments.reweigh (args : Arguments) (rules : Ruleset Float) :
    Except (GrammarError Float) (Ruleset Float) :=
  match args.smoothing with
  | some constant => rules.smooth constant
  | none => if args.normalize then rules.normalize else .ok rules

/-- The grammar that the arguments ask for. -/
def Arguments.grammar (args : Arguments) (rules : Ruleset Float) :
    Except (GrammarError Float) (Grammar Float) := do
  let g ← Grammar.ofRules (← args.reweigh rules)
  if args.normalForm then g.toNormalForm else return g

/-- Begins a session with what there was to be found in the grammar file. -/
def Session.begin (args : Arguments) (content : Except SystemError ByteArray) :
    Except (LoadError Float) Session := do
  let rules ← GrammarFile.counts (← (FileError.text content).mapError .file)
  let grammar ← (args.grammar rules).mapError .refused
  return {
    grammar
    options :=
      { start := args.start.getD grammar.start, beam := args.beam, maxSteps := args.maxSteps }
    showChart := args.showChart }

/-- What stands before every line of the input. -/
def prompt : String := "> "

/-- The lines of an input, a line feed being part of the line that it ends. -/
def inputLines (bytes : List UInt8) : List (List UInt8) :=
  bytes.splitBy fun byte _ => byte != 10

variable [Logarithm Float Float]

namespace Session

/-- The chart of a sentence, or why there is none. -/
def chartAnswer (s : Session) (tokens : List String) : String :=
  match s.grammar.chart tokens s.options with
  | .ok chart => "chart:\n" ++ chart.listing ++ "\n"
  | .error e => "chart: " ++ e.message ++ "\n"

/-- The parse of a sentence, or why there is none. -/
def parseAnswer (s : Session) (tokens : List String) : String :=
  match s.grammar.parse tokens s.options with
  | .ok a =>
    a.tree.outline ++ "\n" ++ a.tree.brackets ++ "\n"
      ++ "log probability: " ++ fixedText 6 a.score ++ "\n"
  | .error e => e.message ++ "\n"

/-- The answer to a sentence, with a blank line behind it. -/
def answer (s : Session) (tokens : List String) : String :=
  (if s.showChart then s.chartAnswer tokens else "") ++ s.parseAnswer tokens ++ "\n"

/-- The answer to a line, or why it cannot be read. -/
def reply (s : Session) (line : ByteArray) : Except FileError String := do
  let text ← FileError.decode line
  return s.answer ((Text.words text.toList).map String.ofList)

/-- The outcome of a session with the given lines, behind some output. -/
def converse (s : Session) (stdout : String) : List ByteArray → Outcome
  | [] => { stdout := stdout ++ prompt, stderr := "", code := 0 }
  | line :: rest =>
    match s.reply line with
    | .ok answer => s.converse (stdout ++ prompt ++ answer) rest
    | .error e => failed (stdout ++ prompt) (fileDiagnostic e)

end Session

/-- The outcome of the command for given arguments in given surroundings. -/
def run (program : String) (args : List String) (found : Surroundings) : Outcome :=
  match Arguments.read args with
  | .error stop => stop.outcome program
  | .ok args =>
    match Session.begin args (found.read args.file) with
    | .error e => failed "" (loadDiagnostic e)
    | .ok session =>
      let lines := inputLines (found.inputAfter args.file).toList
      session.converse "" (lines.map fun line => ⟨line.toArray⟩)

end Constituency.Command
