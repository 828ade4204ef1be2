import Constituency.Tree.Basic
import Constituency.Text.Lines

/-!
# Outlines

An outline shows one node a line, with its span and its label, and sets the lines of a subtree two
columns further in than the node above it.
-/
namespace Constituency

/-- The lines of a text, each on a line of its own two columns further in. -/
def indented (text : List Char) : List Char :=
  (Text.lines text).flatMap fun line => '\n' :: ' ' :: ' ' :: line

/-- The opening of a node: its span and its label. -/
def Tree.heading {α : Type} (tree : Tree α) : List Char :=
  '(' :: tree.constituent.text.toList

/-- The characters of an outline. -/
def Tree.outlined {α : Type} : Tree α → List Char
  | lexical rule token position =>
    (lexical rule token position).heading ++ ' ' :: token.toList ++ [')']
  | unary rule child => (unary rule child).heading ++ indented child.outlined ++ [')']
  | binary rule left right =>
    (binary rule left right).heading ++ indented left.outlined ++ indented right.outlined ++ [')']

/-- The outline of a tree. -/
def Tree.outline {α : Type} (tree : Tree α) : String :=
  String.ofList tree.outlined

end Constituency
