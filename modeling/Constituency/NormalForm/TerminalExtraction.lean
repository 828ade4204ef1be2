import Constituency.Ruleset.Validation

/-!
# Extraction of terminals

In a body with several symbols every word is replaced by a label of its own, a unit label, which is
rewritten to the word with probability one. Words that stand alone are left in place.
-/
namespace Constituency

variable {α : Type}

/-- The label that stands for a word. -/
def unitLabel (word : String) : String :=
  "_" ++ word

/-- Replaces a word by its unit label. -/
def Symbol.lifted : Symbol → Symbol
  | terminal word => nonterminal (unitLabel word)
  | nonterminal label => nonterminal label

/-- Replaces the words of a mixed rule by their unit labels. -/
def Rule.lifted (rule : Rule α) : Rule α :=
  if rule.isMixed then { rule with body := rule.body.map Symbol.lifted } else rule

namespace Ruleset

/-- The first rule of each head. -/
def firsts : Ruleset α → Ruleset α
  | [] => []
  | rule :: rules => rule :: (firsts rules).filter (·.head ≠ rule.head)

variable [Weight α]

/-- The rule of a unit label. -/
def unitRule (language : Option String) (word : String) : Rule α :=
  { Rule.lexical (unitLabel word) word 1 with language }

/-- The rules of the unit labels that a rule needs, if it is mixed. -/
def unitsOf (rule : Rule α) : Ruleset α :=
  if rule.isMixed then (rule.body.filterMap Symbol.word?).map (unitRule rule.language) else []

/-- Replaces words beside other symbols by unit labels, whose rules come last. The rule of a unit
label has the language of the first rule that needs it. -/
def extractTerminals (rules : Ruleset α) : Ruleset α :=
  rules.map Rule.lifted ++ firsts (rules.flatMap unitsOf)

end Ruleset

end Constituency
