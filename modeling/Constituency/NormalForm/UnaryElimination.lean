import Constituency.NormalForm.Merging
import Constituency.Ruleset.Vocabulary

/-!
# Elimination of unary rules

A chain of unary rules that ends in another rule is replaced by one rule from the head of the chain
to the body at its end, weighted with the product along the chain. A chain never comes back to a
label on it, so that there are finitely many; rules that arise from several chains are merged.
-/
namespace Constituency.Ruleset

variable {α : Type} [Weight α]

/-- The labels that are still available once a label has been visited. -/
def leave (label : String) (available : List String) : List String :=
  available.filter (· ≠ label)

theorem length_leave_lt {label : String} {available : List String} (h : label ∈ available) :
    (leave label available).length < available.length :=
  List.length_filter_lt_length_iff_exists.mpr ⟨label, h, by simp⟩

/-- The bodies that end a chain through a label, each with the product along the chain. The chain
may visit each of the labels in `available` once. -/
def expansions (rulesOf : String → Ruleset α) (available : List String) (label : String)
    (weight : α) : List (List Symbol × α) :=
  if _h : label ∈ available then
    (rulesOf label).flatMap fun rule =>
      match rule.unaryChild? with
      | some child => expansions rulesOf (leave label available) child (weight * rule.weight)
      | none => [(rule.body, weight * rule.weight)]
  else []
termination_by available.length
decreasing_by exact length_leave_lt (by assumption)

/-- Whether a unary rule rewrites a label to itself. -/
def isLoop (rule : Rule α) : Bool :=
  rule.unaryChild? = some rule.head

/-- The rules that take the place of a rule: itself, or the ends of the chains that it begins. -/
def withoutUnary (rulesOf : String → Ruleset α) (labels : List String) (rule : Rule α) :
    Ruleset α :=
  match rule.unaryChild? with
  | some child =>
    (expansions rulesOf (leave rule.head labels) child rule.weight).map fun e =>
      rule.derive rule.head e.1 e.2
  | none => [rule]

/-- Replaces every unary rule by the ends of the chains that it begins. -/
def eliminateUnary (rules : Ruleset α) : Ruleset α :=
  let kept : Ruleset α := rules.filter fun rule => !isLoop rule
  let groups := kept.byHead
  merge (kept.flatMap (withoutUnary (groups.getD · []) groups.keys))

end Constituency.Ruleset
