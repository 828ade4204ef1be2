import Constituency.NormalForm.Merging
import Constituency.Ruleset.Normalization
import Std.Data.TreeSet

/-!
# Binarization

A rule with more than two symbols becomes a chain of rules with two symbols each. A link of the
chain keeps the first symbol and leaves the others to a synthetic label, which is named after the
link's head and its first two symbols. Rules that begin alike share links; the links of a synthetic
label are divided by their total, so that the product along a chain is the weight of its rule.
-/
namespace Constituency

variable {α : Type}

/-- The label that stands for what follows the first symbol of a body. -/
def syntheticLabel (head : String) (first second : Symbol) : String :=
  head ++ "|" ++ first.name ++ "_" ++ second.name

/-- The links that stand for a rule with the given head and body; each carries the whole weight. -/
def Rule.links (rule : Rule α) (head : String) : List Symbol → Ruleset α
  | first :: second :: third :: rest =>
    let tail := syntheticLabel head first second
    rule.derive head [first, .nonterminal tail] rule.weight
      :: rule.links tail (second :: third :: rest)
  | body => [rule.derive head body rule.weight]

/-- The chain that stands for a rule. -/
def Rule.chain (rule : Rule α) : Ruleset α :=
  rule.links rule.head rule.body

/-- Whether a rule has more than two symbols. -/
def Rule.isLong (rule : Rule α) : Bool :=
  decide (2 < rule.body.length)

/-- The synthetic labels of a chain head all its links but the first. -/
def Rule.syntheticLabels (rule : Rule α) : List String :=
  rule.chain.tail.map (·.head)

namespace Ruleset

variable [Weight α]

/-- Splits rules with more than two symbols into chains, behind the other rules. -/
def binarize (rules : Ruleset α) : Ruleset α :=
  let long := rules.filter Rule.isLong
  let synthetic := Std.TreeSet.ofList (long.flatMap Rule.syntheticLabels)
  let links := merge (long.flatMap Rule.chain)
  let totals := links.totals
  rules.filter (fun rule => !rule.isLong) ++ links.map fun link =>
    if synthetic.contains link.head then
      { link with weight := link.weight / totals.getD link.head 0 }
    else link

end Ruleset

end Constituency
