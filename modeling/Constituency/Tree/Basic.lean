import Constituency.Rule

/-!
# Trees

A tree is a derivation: every node applies a rule, to a token or to one or two subtrees. Whether the
rules fit is not part of the type. The label of a node is the head of its rule, and its span runs
from the first to the last token below it. The score of a tree adds the logarithms of its rules'
weights from the leaves upwards; an `Analysis` keeps it beside the tree.
-/
namespace Constituency

/-- A derivation. Tokens are counted from zero. -/
inductive Tree (α : Type) where
  | lexical (rule : Rule α) (token : String) (position : Nat)
  | unary (rule : Rule α) (child : Tree α)
  | binary (rule : Rule α) (left right : Tree α)
deriving DecidableEq, Repr

/-- A label over the tokens from `first` to `last`. -/
structure Constituent where
  label : String
  first : Nat
  last : Nat
deriving DecidableEq, Ord, Repr

/-- The written form of a constituent. -/
def Constituent.text (c : Constituent) : String :=
  c.first.repr ++ ".." ++ c.last.repr ++ ": " ++ c.label

namespace Tree

variable {α σ : Type}

/-- The rule that the top node applies. -/
def rule : Tree α → Rule α
  | lexical rule _ _ | unary rule _ | binary rule _ _ => rule

/-- The label of the top node. -/
def label (tree : Tree α) : String :=
  tree.rule.head

/-- The first token. -/
def first : Tree α → Nat
  | lexical _ _ position => position
  | unary _ child => child.first
  | binary _ left _ => left.first

/-- The last token. -/
def last : Tree α → Nat
  | lexical _ _ position => position
  | unary _ child => child.last
  | binary _ _ right => right.last

/-- The top node as a constituent. -/
def constituent (tree : Tree α) : Constituent :=
  { label := tree.label, first := tree.first, last := tree.last }

/-- The token of a lexical node. -/
def token? : Tree α → Option String
  | lexical _ token _ => some token
  | _ => none

/-- The tokens from left to right. -/
def leaves : Tree α → List String
  | lexical _ token _ => [token]
  | unary _ child => child.leaves
  | binary _ left right => left.leaves ++ right.leaves

/-- The subtrees, every node before its children. -/
def subtrees : Tree α → List (Tree α)
  | lexical rule token position => [lexical rule token position]
  | unary rule child => unary rule child :: child.subtrees
  | binary rule left right => binary rule left right :: (left.subtrees ++ right.subtrees)

/-- The constituents, every node before its children. -/
def constituents (tree : Tree α) : List Constituent :=
  tree.subtrees.map constituent

/-- The sum of the logarithms of the weights, from the leaves upwards. -/
def score [Score σ] [Logarithm α σ] : Tree α → σ
  | lexical rule _ _ => Logarithm.log rule.weight
  | unary rule child => Logarithm.log rule.weight + child.score
  | binary rule left right => Logarithm.log rule.weight + left.score + right.score

end Tree

/-- A tree beside its score. -/
structure Analysis (α : Type) {σ : Type} [Score σ] [Logarithm α σ] where
  tree : Tree α
  score : σ
  score_eq : score = tree.score

namespace Analysis

variable {α σ : Type} [Score σ] [Logarithm α σ]

/-- The label of the tree. -/
def label (a : Analysis α) : String :=
  a.tree.label

/-- The analysis of a token. -/
def lexical (rule : Rule α) (token : String) (position : Nat) : Analysis α :=
  ⟨.lexical rule token position, Logarithm.log rule.weight, rfl⟩

/-- The analysis with a node above another one. -/
def unary (rule : Rule α) (child : Analysis α) : Analysis α :=
  ⟨.unary rule child.tree, Logarithm.log rule.weight + child.score, by rw [child.score_eq]; rfl⟩

/-- The analysis with a node above two others. -/
def binary (rule : Rule α) (left right : Analysis α) : Analysis α :=
  ⟨.binary rule left.tree right.tree, Logarithm.log rule.weight + left.score + right.score,
    by rw [left.score_eq, right.score_eq]; rfl⟩

end Analysis

end Constituency
