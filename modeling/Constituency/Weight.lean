import Constituency.Decimal.Numeral
import Constituency.Decimal.Shortest

/-!
# Weights and scores

A rule carries a weight, which is a count or a probability. Derivations are compared by scores, a
score being a sum of logarithms of weights. Grammars, normal forms and charts are written for every
type of weights and scores with the few operations named here; programs run them on doubles.
-/
namespace Constituency

/-- Numbers that can weigh a rule. -/
class Weight (α : Type) extends Zero α, One α, Add α, Sub α, Mul α, Div α, LE α, LT α where
  [decidableLE : DecidableLE α]
  [decidableLT : DecidableLT α]
  /-- Whether a weight is a number at all, and not infinite. -/
  isFinite : α → Bool
  /-- How far two weights may lie apart and still count as equal. -/
  tolerance : α

instance Weight.instDecidableLE {α : Type} [Weight α] : DecidableLE α := Weight.decidableLE

instance Weight.instDecidableLT {α : Type} [Weight α] : DecidableLT α := Weight.decidableLT

/-- Weights that grammar files can spell. -/
class DecimalText (α : Type) where
  /-- The decimal that stands for a weight. -/
  text : α → List Char
  /-- The weight that a decimal stands for. -/
  ofNumeral : Decimal.Numeral → α

/-- Numbers that derivations are compared by. -/
class Score (σ : Type) extends Add σ, LE σ where
  [decidableLE : DecidableLE σ]

instance Score.instDecidableLE {σ : Type} [Score σ] : DecidableLE σ := Score.decidableLE

/-- Weights in `α` contribute scores in `σ`. -/
class Logarithm (α : Type) (σ : outParam Type) where
  /-- What a rule of a given weight contributes to the score of a derivation. -/
  log : α → σ

/-- Whether two weights are equal up to the tolerance. -/
def Weight.close {α : Type} [Weight α] (a b : α) : Bool :=
  decide (a - b ≤ tolerance ∧ b - a ≤ tolerance)

/-- The sum of weights, added in order to zero. -/
def Weight.sum {α : Type} [Weight α] (ws : List α) : α :=
  ws.foldl (· + ·) 0

instance Weight.instFloat : Weight Float where
  isFinite := Float.isFinite
  tolerance := 1e-9

instance DecimalText.instFloat : DecimalText Float where
  text x := (Decimal.Binary.ofFloat x).shortestText
  ofNumeral := Decimal.Numeral.toFloat

instance Score.instFloat : Score Float where

instance Logarithm.instFloat : Logarithm Float Float where
  log := Float.log

end Constituency
