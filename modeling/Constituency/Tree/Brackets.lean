import Constituency.Tree.Basic
import Constituency.Text.Case

/-!
# Brackets

A tree in brackets shows the labels in upper case, each before what it covers: `(S (NP she) (VP
ran))`. A parenthesis that is a token is written as a name, so that it cannot be taken for a
bracket.
-/
namespace Constituency

/-- A token as it stands in brackets. -/
def bracketToken (token : String) : String :=
  if token = "(" then "-LRB-" else if token = ")" then "-RRB-" else token

/-- A tree in brackets. -/
def Tree.brackets {α : Type} : Tree α → String
  | lexical rule token _ => "(" ++ Text.upperCase rule.head ++ " " ++ bracketToken token ++ ")"
  | unary rule child => "(" ++ Text.upperCase rule.head ++ " " ++ child.brackets ++ ")"
  | binary rule left right =>
    "(" ++ Text.upperCase rule.head ++ " " ++ left.brackets ++ " " ++ right.brackets ++ ")"

end Constituency
