import Constituency.GrammarError

/-!
# Validation

Rules need a head with at least one character, a body with at least one symbol, and a weight in the
range that their use calls for. The first rule that fails decides, and in it the first of these.
-/
namespace Constituency

/-- A list of rules in the order in which they were given. -/
abbrev Ruleset (α : Type) := List (Rule α)

/-- What the weights of rules may be. -/
inductive WeightRange where
  /-- Any finite number from zero on. -/
  | counts
  /-- From zero to one, or above one by the tolerance at most. -/
  | probabilities
  /-- Probabilities without zero. -/
  | positiveProbabilities
deriving DecidableEq, Repr

variable {α : Type} [Weight α]

/-- Whether a weight lies in the range. -/
def WeightRange.admits (range : WeightRange) (weight : α) : Bool :=
  match range with
  | counts => Weight.isFinite weight && decide (0 ≤ weight)
  | probabilities => decide (0 ≤ weight ∧ weight ≤ 1 + Weight.tolerance)
  | positiveProbabilities => decide (0 < weight ∧ weight ≤ 1 + Weight.tolerance)

/-- The first thing that is wrong with a rule. -/
def Rule.fault? (range : WeightRange) (rule : Rule α) : Option (GrammarError α) :=
  if rule.head = "" then some (.emptyHead rule)
  else if rule.body = [] then some (.emptyBody rule)
  else if range.admits rule.weight then none
  else some (.weightOutOfRange rule)

theorem Rule.fault?_eq_none_iff {range : WeightRange} {rule : Rule α} :
    rule.fault? range = none ↔
      rule.head ≠ "" ∧ rule.body ≠ [] ∧ range.admits rule.weight = true := by
  unfold Rule.fault?
  split <;> simp_all
  split <;> simp_all

namespace Ruleset

/-- The first thing that is wrong with a list of rules. -/
def fault? (range : WeightRange) (rules : Ruleset α) : Option (GrammarError α) :=
  rules.findSome? (Rule.fault? range)

/-- Refuses rules that have a fault. -/
def validate (range : WeightRange) (rules : Ruleset α) : Except (GrammarError α) Unit :=
  match rules.fault? range with
  | some e => .error e
  | none => .ok ()

theorem validate_eq_ok_iff {range : WeightRange} {rules : Ruleset α} :
    rules.validate range = .ok () ↔
      ∀ rule ∈ rules, rule.head ≠ "" ∧ rule.body ≠ [] ∧ range.admits rule.weight = true := by
  simp only [← Rule.fault?_eq_none_iff]
  unfold validate fault?
  split <;> rename_i h
  · have hne : ¬ ∀ rule ∈ rules, rule.fault? range = none := by
      intro hall; rw [List.findSome?_eq_none_iff.mpr hall] at h; cases h
    simp [hne]
  · simpa using List.findSome?_eq_none_iff.mp h

end Ruleset

end Constituency
