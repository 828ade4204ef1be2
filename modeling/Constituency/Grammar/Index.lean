import Constituency.Ruleset.Vocabulary
import Constituency.Text.Case

/-!
# Looking rules up

A chart finds rules by their bodies: lexical rules by the lower case of their word, unary rules by
their child, binary rules by both children. The index of a list of rules answers each look-up with
the rules that a filter of the list would keep, in the order of the list.
-/
namespace Constituency

/-- The rules of a list by their heads and by their bodies. -/
structure Index (α : Type) where
  byHead : Std.TreeMap String (Ruleset α)
  byWord : Std.TreeMap String (Ruleset α)
  byChild : Std.TreeMap String (Ruleset α)
  byChildren : Std.TreeMap String (Std.TreeMap String (Ruleset α))

namespace Index

variable {α : Type}

/-- The key of a lexical rule. -/
def wordKey? (rule : Rule α) : Option String :=
  rule.word?.map Text.lowerCase

/-- The first key of a binary rule. -/
def leftKey? (rule : Rule α) : Option String :=
  rule.binaryChildren?.map (·.1)

/-- The second key of a binary rule. -/
def rightKey? (rule : Rule α) : Option String :=
  rule.binaryChildren?.map (·.2)

/-- The index of a list of rules. -/
def ofRules (rules : Ruleset α) : Index α where
  byHead := rules.byHead
  byWord := rules.groupBy wordKey? compare
  byChild := rules.groupBy Rule.unaryChild? compare
  byChildren := (rules.groupBy leftKey? compare).map fun _ group => group.groupBy rightKey? compare

/-- The rules with a given head. -/
def rulesFor (index : Index α) (head : String) : Ruleset α :=
  index.byHead.getD head []

/-- The lexical rules whose word has the given lower case. -/
def lexicalRules (index : Index α) (word : String) : Ruleset α :=
  index.byWord.getD word []

/-- The unary rules with a given child. -/
def unaryRules (index : Index α) (child : String) : Ruleset α :=
  index.byChild.getD child []

/-- The binary rules with given children. -/
def binaryRules (index : Index α) (left right : String) : Ruleset α :=
  match index.byChildren[left]? with
  | some byRight => byRight.getD right []
  | none => []

@[simp] theorem rulesFor_ofRules (rules : Ruleset α) (head : String) :
    (ofRules rules).rulesFor head = rules.filter (·.head = head) := by
  simp [rulesFor, ofRules, Ruleset.byHead, Ruleset.getD_groupBy]

@[simp] theorem lexicalRules_ofRules (rules : Ruleset α) (word : String) :
    (ofRules rules).lexicalRules word = rules.filter (wordKey? · = some word) := by
  simp [lexicalRules, ofRules, Ruleset.getD_groupBy]

@[simp] theorem unaryRules_ofRules (rules : Ruleset α) (child : String) :
    (ofRules rules).unaryRules child = rules.filter (Rule.unaryChild? · = some child) := by
  simp [unaryRules, ofRules, Ruleset.getD_groupBy]

theorem filter_rightKey_filter_leftKey (rules : Ruleset α) (left right : String) :
    (rules.filter (leftKey? · = some left)).filter (rightKey? · = some right) =
      rules.filter (Rule.binaryChildren? · = some (left, right)) := by
  rw [List.filter_filter]
  refine List.filter_congr fun rule _ => ?_
  cases h : rule.binaryChildren? <;> simp [leftKey?, rightKey?, h, Prod.ext_iff, Bool.and_comm]

@[simp] theorem binaryRules_ofRules (rules : Ruleset α) (left right : String) :
    (ofRules rules).binaryRules left right =
      rules.filter (Rule.binaryChildren? · = some (left, right)) := by
  have hg : (rules.groupBy leftKey? compare).getD left [] = _ :=
    Ruleset.getD_groupBy leftKey? rules left
  rw [← filter_rightKey_filter_leftKey, ← hg, Std.TreeMap.getD_eq_getD_getElem?]
  simp only [binaryRules, ofRules, Std.TreeMap.getElem?_map]
  cases (rules.groupBy leftKey? compare)[left]? <;> simp [Ruleset.getD_groupBy]

end Index

end Constituency
