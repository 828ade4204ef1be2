import Constituency.Symbol
import Constituency.Weight

/-!
# Rules

A rule rewrites the label at its head to the symbols of its body. It carries a weight, and may be
marked with a language. The shape of a rule says how a chart can use it: one word, one label, two
labels, or not at all.
-/
namespace Constituency

/-- A weighted context-free rule. -/
structure Rule (α : Type) where
  head : String
  body : List Symbol
  weight : α
  language : Option String := none
deriving DecidableEq, Repr

/-- How a chart can use a rule. -/
inductive Shape where
  | lexical (word : String)
  | unary (child : String)
  | binary (left right : String)
  | other
deriving DecidableEq, Repr

namespace Rule

variable {α : Type}

/-- The rule that rewrites a label to a word. -/
def lexical (head word : String) (weight : α) : Rule α :=
  { head, body := [.terminal word], weight }

/-- The rule that rewrites a label to another one. -/
def unary (head child : String) (weight : α) : Rule α :=
  { head, body := [.nonterminal child], weight }

/-- The rule that rewrites a label to two labels. -/
def binary (head left right : String) (weight : α) : Rule α :=
  { head, body := [.nonterminal left, .nonterminal right], weight }

/-- Another rule for the same language. -/
def derive (rule : Rule α) (head : String) (body : List Symbol) (weight : α) : Rule α :=
  { head, body, weight, language := rule.language }

/-- The shape that the body has. -/
def shape (rule : Rule α) : Shape :=
  match rule.body with
  | [.terminal word] => .lexical word
  | [.nonterminal child] => .unary child
  | [.nonterminal left, .nonterminal right] => .binary left right
  | _ => .other

/-- The word of a lexical rule. -/
def word? (rule : Rule α) : Option String :=
  match rule.shape with
  | .lexical word => some word
  | _ => none

/-- The child of a unary rule. -/
def unaryChild? (rule : Rule α) : Option String :=
  match rule.shape with
  | .unary child => some child
  | _ => none

/-- The children of a binary rule. -/
def binaryChildren? (rule : Rule α) : Option (String × String) :=
  match rule.shape with
  | .binary left right => some (left, right)
  | _ => none

/-- Whether the rule is in normal form: one word, or two labels. -/
def isNormal (rule : Rule α) : Bool :=
  match rule.shape with
  | .lexical _ | .binary _ _ => true
  | _ => false

/-- Whether a word stands beside other symbols. -/
def isMixed (rule : Rule α) : Bool :=
  decide (1 < rule.body.length) && rule.body.any Symbol.isTerminal

/-- Whether two rules differ in their weights at most. -/
def sameFrame (rule other : Rule α) : Bool :=
  rule.head = other.head && rule.body = other.body && rule.language = other.language

/-- Whether two rules have the same frame and weights that compare as equal. -/
def agrees [BEq α] (rule other : Rule α) : Bool :=
  rule.sameFrame other && rule.weight == other.weight

/-- The written form of a rule. -/
def written [DecimalText α] (rule : Rule α) : List Char :=
  Label.written rule.head ++ [' ', '-', '>'] ++ rule.body.flatMap (fun s => ' ' :: s.written)
    ++ [' ', '['] ++ DecimalText.text rule.weight ++ [']']
    ++ (match rule.language with
        | some language => ' ' :: '@' :: language.toList
        | none => [])
    ++ [';']

/-- The written form of a rule, as a text. -/
def text [DecimalText α] (rule : Rule α) : String :=
  String.ofList rule.written

end Rule

end Constituency
