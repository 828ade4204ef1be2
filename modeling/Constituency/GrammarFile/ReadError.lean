import Constituency.Text.Lines

/-!
# Why a text is no list of rules

An error names what was expected and shows the rest of the line that was found instead, after the
parts of a rule in which the reader stood. Expectations are named by the patterns of the file
format.
-/
namespace Constituency.GrammarFile

/-- What a reader may expect. -/
inductive Expected where
  | name
  | quotedWord
  | label
  | number
  | arrow
  | mark (c : Char)
deriving DecidableEq, Repr

/-- The pattern of what is expected. -/
def Expected.pattern : Expected → String
  | name => "^[a-zA-Z0-9\\-_|]+"
  | quotedWord => "^\"(?:[^\"\\\\]|\\\\.)*\""
  | label => "^<(?:[^>\\\\]|\\\\.)*>"
  | number => "^[0-9]*\\.?[0-9]+(?:[eE][-+]?[0-9]+)?"
  | arrow => "^->"
  | mark c => String.singleton c

/-- The part of a rule in which a reader stands. -/
inductive Place where
  | name
  | quotedWord
  | label
  | symbol
  | probability
  | language
  | head
  | arrow
  | rule (head : String)
deriving DecidableEq, Repr

/-- The name of a part. -/
def Place.text : Place → String
  | name => "name"
  | quotedWord => "quoted word"
  | label => "label"
  | symbol => "symbol"
  | probability => "probability"
  | language => "language"
  | head => "rule lhs"
  | arrow => "rule arrow"
  | rule of => "rule " ++ of

/-- Why a text is no list of rules; `rest` is what the reader found. -/
inductive ReadError where
  | missing (expected : Expected) (rest : List Char)
  | terminalHead (word : String) (rest : List Char)
  | within (place : Place) (cause : ReadError)
deriving DecidableEq, Repr

/-- The first line of what was found. -/
def excerpt (rest : List Char) : String :=
  match Text.firstLine? rest with
  | some line => String.ofList line
  | none => "end of input"

/-- The message of an error. -/
def ReadError.message : ReadError → String
  | missing expected rest => "couldn't match " ++ expected.pattern ++ " at " ++ excerpt rest
  | terminalHead word rest => "expected non-terminal, got terminal " ++ word ++ ": " ++ excerpt rest
  | within place cause => place.text ++ ": " ++ cause.message

end Constituency.GrammarFile
