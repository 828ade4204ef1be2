import Constituency.NormalForm.UnaryElimination
import Constituency.NormalForm.Binarization
import Constituency.NormalForm.TerminalExtraction

/-!
# Conversion to normal form

In normal form every rule has one word or two labels. Rules with positive probabilities are brought
to it by eliminating unary rules, splitting long ones, and giving words beside other symbols a
label.
-/
namespace Constituency.Ruleset

variable {α : Type} [Weight α]

/-- Whether every rule has one word or two labels. -/
def isNormal (rules : Ruleset α) : Bool :=
  rules.all Rule.isNormal

/-- Converts rules with positive probabilities to normal form. -/
def toNormalForm (rules : Ruleset α) : Except (GrammarError α) (Ruleset α) := do
  rules.validate .positiveProbabilities
  return extractTerminals (binarize (eliminateUnary rules))

end Constituency.Ruleset
