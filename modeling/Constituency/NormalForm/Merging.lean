import Constituency.Ruleset.Validation

/-!
# Merging rules

Rules that differ in their weights at most become one rule with the sum of the weights, at the place
of the first of them.
-/
namespace Constituency.Ruleset

variable {α : Type} [Weight α]

/-- Adds a rule to a list: to the weight of the rule with the same frame, or at the end. -/
def absorb (merged : Ruleset α) (rule : Rule α) : Ruleset α :=
  match merged with
  | [] => [rule]
  | first :: rest =>
    if first.sameFrame rule then { first with weight := first.weight + rule.weight } :: rest
    else first :: absorb rest rule

/-- The rules with equal frames merged, in the order of their first occurrences. -/
def merge (rules : Ruleset α) : Ruleset α :=
  rules.foldl absorb []

end Constituency.Ruleset
