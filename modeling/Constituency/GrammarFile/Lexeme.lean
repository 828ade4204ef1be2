import Constituency.GrammarFile.ReadError
import Constituency.Rule
import Constituency.Text.Blank

/-!
# The parts of a grammar file

Each reader takes one part from the front of a text and gives the rest, or says what it missed.
Names are as long as possible. Blanks and comments may stand between the parts; a comment begins
with two slashes and ends with its line.
-/
namespace Constituency.GrammarFile

/-- A part of a text, and the text behind it. -/
abbrev Taken (β : Type) := β × List Char

/-- Notes the place at which an error arose. -/
def atPlace {β : Type} (place : Place) (reading : Except ReadError β) : Except ReadError β :=
  reading.mapError (.within place)

/-- Drops blanks and comments; `comment` says that the text starts inside a comment. -/
def skipFrom (comment : Bool) : List Char → List Char
  | [] => []
  | c :: rest =>
    if comment then skipFrom (c ≠ '\n') rest
    else if Text.isBlank c then skipFrom false rest
    else if c = '/' ∧ rest.head? = some '/' then skipFrom true rest
    else c :: rest

/-- Drops blanks and comments. -/
def skipBlanks (cs : List Char) : List Char :=
  skipFrom false cs

/-- Takes one character. -/
def readMark (mark : Char) : List Char → Except ReadError (Taken Unit)
  | [] => .error (.missing (.mark mark) [])
  | c :: rest => if c = mark then .ok ((), rest) else .error (.missing (.mark mark) (c :: rest))

/-- Takes a name. -/
def readName (cs : List Char) : Except ReadError (Taken String) :=
  let name := cs.takeWhile Label.isNameChar
  if name = [] then .error (.within .name (.missing .name cs))
  else .ok (String.ofList name, cs.dropWhile Label.isNameChar)

/-- Takes a delimited text whose opening delimiter is the first character. -/
def readDelimited (place : Place) (expected : Expected) (close : Char) (cs : List Char) :
    Except ReadError (Taken String) :=
  match Text.Delimited.read? close cs.tail with
  | some (text, rest) => .ok (String.ofList text, rest)
  | none => .error (.within place (.missing expected cs))

/-- Takes a quoted word, a label between angle brackets, or a name, which is a word if a lower-case
letter begins it and a label otherwise. -/
def readSymbol (cs : List Char) : Except ReadError (Taken Symbol) :=
  match cs.head? with
  | some '"' => do
    let (word, rest) ← readDelimited .quotedWord .quotedWord '"' cs
    return (.terminal word, rest)
  | some '<' => do
    let (label, rest) ← readDelimited .label .label '>' cs
    return (.nonterminal label, rest)
  | first => do
    let (name, rest) ← atPlace .symbol (readName cs)
    return (if first.any Char.isLower then .terminal name else .nonterminal name, rest)

/-- Takes a number. -/
def readNumber (cs : List Char) : Except ReadError (Taken Decimal.Numeral) :=
  match Decimal.Numeral.read? cs with
  | some reading => .ok reading
  | none => .error (.within .probability (.missing .number cs))

/-- Takes the weight of a rule, in square brackets, if there is one. -/
def readWeight (cs : List Char) : Except ReadError (Taken (Option Decimal.Numeral)) :=
  match cs with
  | '[' :: rest => do
    let (number, rest) ← readNumber (skipBlanks rest)
    let (_, rest) ← readMark ']' (skipBlanks rest)
    return (some number, rest)
  | _ => .ok (none, cs)

/-- Takes the language of a rule, a name behind an at sign, if there is one. -/
def readLanguage (cs : List Char) : Except ReadError (Taken (Option String)) :=
  match cs with
  | '@' :: rest => do
    let (name, rest) ← atPlace .language (readName rest)
    return (some name, rest)
  | _ => .ok (none, cs)

/-- Takes an arrow. -/
def readArrow (cs : List Char) : Except ReadError (Taken Unit) :=
  match cs with
  | '-' :: '>' :: rest => .ok ((), rest)
  | _ => .error (.within .arrow (.missing .arrow cs))

end Constituency.GrammarFile
