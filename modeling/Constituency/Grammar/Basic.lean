import Constituency.Grammar.Index
import Constituency.NormalForm.Conversion

/-!
# Grammars

A grammar is a non-empty list of valid rules with probabilities, a start label, and an index of the
rules. The start label is the head of the first rule unless another one is chosen. Normalizing,
smoothing and conversion to normal form build a new grammar with the same start label.
-/
namespace Constituency

/-- A list of rules with probabilities, a start label, and an index. -/
structure Grammar (α : Type) [Weight α] where
  start : String
  rules : Ruleset α
  index : Index α
  rules_ne_nil : rules ≠ []
  rules_valid : rules.fault? .probabilities = none
  index_eq : index = .ofRules rules

namespace Grammar

variable {α : Type} [Weight α]

/-- The grammar of a list of rules, starting with the head of the first rule. -/
def ofRules : Ruleset α → Except (GrammarError α) (Grammar α)
  | [] => .error .noRules
  | first :: rest =>
    match h : Ruleset.fault? .probabilities (first :: rest) with
    | some e => .error e
    | none => .ok
      { start := first.head
        rules := first :: rest
        index := .ofRules (first :: rest)
        rules_ne_nil := List.cons_ne_nil first rest
        rules_valid := h
        index_eq := rfl }

theorem ofRules_cons {first : Rule α} {rest : Ruleset α}
    (h : Ruleset.fault? .probabilities (first :: rest) = none) :
    ofRules (first :: rest) = .ok
      { start := first.head
        rules := first :: rest
        index := .ofRules (first :: rest)
        rules_ne_nil := List.cons_ne_nil first rest
        rules_valid := h
        index_eq := rfl } := by
  rw [ofRules]
  split
  · simp_all
  · rfl

/-- A grammar holds the rules that it was made from, and starts with the head of the first. -/
theorem eq_of_ofRules {rules : Ruleset α} {g : Grammar α} (h : ofRules rules = .ok g) :
    g.rules = rules ∧ rules.head?.map (·.head) = some g.start := by
  cases rules with
  | nil => cases h
  | cons first rest =>
    rw [ofRules] at h
    split at h
    · cases h
    · cases h; exact ⟨rfl, rfl⟩

/-- The grammar of a list of rules whose weights are counts. -/
def ofCounts (rules : Ruleset α) : Except (GrammarError α) (Grammar α) := do
  ofRules (← rules.normalize)

/-- The grammar with another start label. -/
def withStart (g : Grammar α) (start : String) : Grammar α :=
  { g with start }

/-- The rules with a given head. -/
def rulesFor (g : Grammar α) (head : String) : Ruleset α :=
  g.index.rulesFor head

/-- The lexical rules whose word has the given lower case. -/
def lexicalRules (g : Grammar α) (word : String) : Ruleset α :=
  g.index.lexicalRules word

/-- The unary rules with a given child. -/
def unaryRules (g : Grammar α) (child : String) : Ruleset α :=
  g.index.unaryRules child

/-- The binary rules with given children. -/
def binaryRules (g : Grammar α) (left right : String) : Ruleset α :=
  g.index.binaryRules left right

theorem rulesFor_eq_filter (g : Grammar α) (head : String) :
    g.rulesFor head = g.rules.filter (·.head = head) := by
  simp [rulesFor, g.index_eq]

theorem lexicalRules_eq_filter (g : Grammar α) (word : String) :
    g.lexicalRules word = g.rules.filter (Index.wordKey? · = some word) := by
  simp [lexicalRules, g.index_eq]

theorem unaryRules_eq_filter (g : Grammar α) (child : String) :
    g.unaryRules child = g.rules.filter (Rule.unaryChild? · = some child) := by
  simp [unaryRules, g.index_eq]

theorem binaryRules_eq_filter (g : Grammar α) (left right : String) :
    g.binaryRules left right = g.rules.filter (Rule.binaryChildren? · = some (left, right)) := by
  simp [binaryRules, g.index_eq]

/-- How many rules a chart cannot use. -/
def unusable (g : Grammar α) : Nat :=
  g.rules.countP fun rule => rule.shape = .other

/-- Whether every rule has one word or two labels. -/
def isNormal (g : Grammar α) : Bool :=
  g.rules.isNormal

/-- Whether the probabilities of every head sum to one, up to the tolerance. -/
def isNormalized (g : Grammar α) : Bool :=
  g.index.byHead.all fun _ group => Weight.close (Weight.sum (group.map (·.weight))) 1

/-- The grammar of other rules with the same start label. -/
def rebuild (g : Grammar α) (rules : Except (GrammarError α) (Ruleset α)) :
    Except (GrammarError α) (Grammar α) := do
  return (← ofRules (← rules)).withStart g.start

/-- The grammar with probabilities that sum to one for each head. -/
def normalized (g : Grammar α) : Except (GrammarError α) (Grammar α) :=
  g.rebuild g.rules.normalize

/-- The grammar with a constant added to every weight and the sums brought back to one. -/
def smoothed (g : Grammar α) (constant : α) : Except (GrammarError α) (Grammar α) :=
  g.rebuild (g.rules.smooth constant)

/-- The grammar in normal form. -/
def toNormalForm (g : Grammar α) : Except (GrammarError α) (Grammar α) :=
  g.rebuild g.rules.toNormalForm

end Grammar

end Constituency
