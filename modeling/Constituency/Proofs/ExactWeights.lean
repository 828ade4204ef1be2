import Mathlib.Analysis.SpecialFunctions.Log.Basic
import Constituency.Grammar.Basic
import Constituency.Proofs.Scores

/-!
# Exact weights

Rational numbers weigh rules without rounding, and their logarithms are real scores, which obey the
laws of scores. The grammar `doubling` is small and ambiguous: a list of `n` words has as many
derivations as there are binary trees with `n` leaves.
-/
namespace Constituency

instance Weight.instRat : Weight ℚ where
  isFinite _ := true
  tolerance := 1 / 10 ^ 9

noncomputable instance Score.instReal : Score ℝ where
  decidableLE := Classical.decRel _

noncomputable instance Logarithm.instRatReal : Logarithm ℚ ℝ where
  log weight := Real.log weight

instance Score.lawfulReal : LawfulScore ℝ where
  le_total := le_total
  le_trans := le_trans
  add_le_add_left c h := add_le_add (le_refl c) h
  add_le_add_right c h := add_le_add h (le_refl c)

/-- One word, alone or twice what the label stands for. -/
def doublingRules : Ruleset ℚ :=
  [.binary "S" "S" "S" (1 / 4), .lexical "S" "a" (3 / 4)]

/-- The grammar of all lists of one word. -/
def doubling : Grammar ℚ where
  start := "S"
  rules := doublingRules
  index := .ofRules doublingRules
  rules_ne_nil := List.cons_ne_nil _ _
  rules_valid := by decide +kernel
  index_eq := rfl

theorem unaryRules_doubling (label : String) : doubling.unaryRules label = [] := by
  rw [Grammar.unaryRules_eq_filter]
  rfl

end Constituency
