import Constituency.Text.Delimited

/-!
# Symbols

A symbol is a word of the language or a label of its constituents. A label is written bare when a
reader cannot take it for anything else, and between angle brackets otherwise; a word is always
quoted.
-/
namespace Constituency

/-- A word of the language, or the label of a constituent. -/
inductive Symbol where
  | terminal (word : String)
  | nonterminal (label : String)
deriving DecidableEq, Ord, Repr

namespace Symbol

/-- The word or the label itself. -/
def name : Symbol → String
  | terminal word => word
  | nonterminal label => label

/-- Whether a symbol is a word. -/
def isTerminal : Symbol → Bool
  | terminal _ => true
  | nonterminal _ => false

/-- The word, if the symbol is one. -/
def word? : Symbol → Option String
  | terminal word => some word
  | nonterminal _ => none

/-- The label, if the symbol is one. -/
def label? : Symbol → Option String
  | terminal _ => none
  | nonterminal label => some label

end Symbol

namespace Label

/-- Letters and digits of ASCII, the hyphen, the underscore and the bar. -/
def isNameChar (c : Char) : Bool :=
  c.isAlphanum || c = '-' || c = '_' || c = '|'

/-- Whether a label can stand without brackets: a name that no lower-case letter begins. -/
def isPlain (label : String) : Bool :=
  match label.toList with
  | [] => false
  | c :: rest => !c.isLower && (c :: rest).all isNameChar

/-- The written form of a label. -/
def written (label : String) : List Char :=
  if isPlain label then label.toList else Text.Delimited.written '<' '>' label.toList

end Label

/-- The written form of a symbol. -/
def Symbol.written : Symbol → List Char
  | terminal word => Text.Delimited.written '"' '"' word.toList
  | nonterminal label => Label.written label

end Constituency
