import Constituency.File.Error
import Constituency.GrammarFile.Reader
import Constituency.Grammar.Basic

/-!
# Grammar files

A file is text in UTF-8. Its rules carry counts or probabilities; as a grammar it must hold a rule.
A grammar is written as two comments, which name its start label and all labels, and its rules, one
on a line, in the order of their heads.
-/
namespace Constituency

/-- Why a file makes no grammar. -/
inductive LoadError (α : Type) where
  | file (e : FileError)
  | unreadable (e : GrammarFile.ReadError)
  | empty
  | refused (e : GrammarError α)
deriving Repr

/-- The message of an error. -/
def LoadError.message {α : Type} [DecimalText α] : LoadError α → String
  | file e => e.message
  | unreadable e => e.message
  | empty => "empty ruleset"
  | refused e => e.message

namespace GrammarFile

variable {α : Type} [Weight α] [DecimalText α]

/-- The rules of a text, with any finite weights from zero on. -/
def counts (text : String) : Except (LoadError α) (Ruleset α) := do
  let rules ← (readRules text.toList).mapError .unreadable
  (rules.validate .counts).mapError .refused
  return rules

/-- The grammar of a text. -/
def grammar (text : String) : Except (LoadError α) (Grammar α) := do
  let rules ← counts text
  if rules.isEmpty then throw .empty
  (Grammar.ofRules rules).mapError .refused

/-- The grammar of a file, given what there was to be found. -/
def load (content : Except SystemError ByteArray) : Except (LoadError α) (Grammar α) := do
  grammar (← (FileError.text content).mapError .file)

end GrammarFile

/-- The written form of a grammar. -/
def Grammar.text {α : Type} [Weight α] [DecimalText α] (g : Grammar α) : String :=
  "//** start: " ++ g.start ++ "\n//** nonterminals:"
    ++ String.join (g.rules.nonterminals.map (" " ++ ·)) ++ "\n"
    ++ String.join (g.index.byHead.values.flatten.map (·.text ++ "\n"))

end Constituency
