import Constituency.Ruleset.Validation
import Std.Data.TreeMap.Lemmas

/-!
# From counts to probabilities

The rules of one head share its probability. `normalize` divides every weight by the total of its
head, and leaves alone the rules of a head whose total is zero. `smooth` first adds a positive
constant to every weight, so that no rule is left without probability.
-/
namespace Constituency.Ruleset

variable {α : Type} [Weight α]

/-- The weights of the rules with a given head. -/
def weightsOf (rules : Ruleset α) (head : String) : List α :=
  (rules.filter (·.head = head)).map (·.weight)

/-- Adds the weight of a rule to the total of its head. -/
def addTotal (totals : Std.TreeMap String α) (rule : Rule α) : Std.TreeMap String α :=
  totals.insert rule.head (totals.getD rule.head 0 + rule.weight)

/-- The total weight of every head. -/
def totals (rules : Ruleset α) : Std.TreeMap String α :=
  rules.foldl addTotal ∅

theorem getD_foldl_addTotal (rules : Ruleset α) (totals : Std.TreeMap String α) (head : String) :
    (rules.foldl addTotal totals).getD head 0 =
      (rules.weightsOf head).foldl (· + ·) (totals.getD head 0) := by
  induction rules generalizing totals with
  | nil => rfl
  | cons rule rules ih =>
    rw [List.foldl_cons, ih]
    by_cases h : rule.head = head
    · subst h; simp [weightsOf, addTotal]
    · simp [weightsOf, addTotal, h, Std.TreeMap.getD_insert]

/-- The total of a head is the sum of the weights of its rules, in order. -/
theorem getD_totals (rules : Ruleset α) (head : String) :
    rules.totals.getD head 0 = Weight.sum (rules.weightsOf head) := by
  simp [totals, getD_foldl_addTotal, Weight.sum]

/-- Divides a weight by a total that is not zero. -/
def share (total weight : α) : α :=
  if 0 < total then weight / total else weight

/-- The rules with every weight divided by the total of its head. -/
def shared (rules : Ruleset α) : Ruleset α :=
  let totals := rules.totals
  rules.map fun rule => { rule with weight := share (totals.getD rule.head 0) rule.weight }

/-- Reads weights as counts and turns them into the probabilities of the rules of each head. -/
def normalize (rules : Ruleset α) : Except (GrammarError α) (Ruleset α) := do
  rules.validate .counts
  return rules.shared

/-- The rules with a constant added to every weight. -/
def raised (rules : Ruleset α) (constant : α) : Ruleset α :=
  rules.map fun rule => { rule with weight := rule.weight + constant }

/-- Reads weights as counts, adds a positive constant to each, and normalizes. -/
def smooth (rules : Ruleset α) (constant : α) : Except (GrammarError α) (Ruleset α) := do
  unless Weight.isFinite constant && decide (0 < constant) do
    throw (.smoothingConstant constant)
  rules.validate .counts
  (rules.raised constant).normalize

end Constituency.Ruleset
