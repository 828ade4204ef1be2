import Constituency.Ruleset.Validation
import Std.Data.TreeMap.Lemmas
import Std.Data.TreeSet

/-!
# The labels and words of a list of rules

`nonterminals` and `terminals` list each name once, in the order of code points. `groupBy` collects
rules under a key in their order; `getD_groupBy` says that a group holds exactly the rules with its
key, so that looking a group up is filtering the list.
-/
namespace Constituency.Ruleset

variable {α : Type}

/-- All labels, at heads and in bodies. -/
def nonterminals (rules : Ruleset α) : List String :=
  let labels := rules.flatMap fun rule => rule.head :: rule.body.filterMap Symbol.label?
  (Std.TreeSet.ofList labels).toList

/-- The words of the lexical rules. -/
def terminals (rules : Ruleset α) : List String :=
  (Std.TreeSet.ofList (rules.filterMap Rule.word?)).toList

section Groups

variable {κ : Type} {cmp : κ → κ → Ordering}

/-- Puts a rule in front of the group of its key, if it has one. -/
def addToGroup (key? : Rule α → Option κ) (rule : Rule α) (groups : Std.TreeMap κ (Ruleset α) cmp) :
    Std.TreeMap κ (Ruleset α) cmp :=
  match key? rule with
  | some key => groups.insert key (rule :: groups.getD key [])
  | none => groups

/-- The rules by their keys; rules without a key are left out. -/
def groupBy (key? : Rule α → Option κ) (rules : Ruleset α) (cmp : κ → κ → Ordering) :
    Std.TreeMap κ (Ruleset α) cmp :=
  rules.foldr (addToGroup key?) ∅

/-- A group holds the rules with its key, in their order. -/
theorem getD_groupBy [Std.TransCmp cmp] [Std.LawfulEqCmp cmp] [DecidableEq κ]
    (key? : Rule α → Option κ) (rules : Ruleset α) (key : κ) :
    (groupBy key? rules cmp).getD key [] = rules.filter (key? · = some key) := by
  induction rules with
  | nil => simp [groupBy]
  | cons rule rules ih =>
    have hcons :
        groupBy key? (rule :: rules) cmp = addToGroup key? rule (groupBy key? rules cmp) := rfl
    rw [hcons, List.filter_cons, ← ih]
    cases hk : key? rule with
    | none => simp [addToGroup, hk]
    | some other =>
      by_cases h : other = key
      · subst h; simp [addToGroup, hk]
      · simp [addToGroup, hk, h, Std.TreeMap.getD_insert]

end Groups

/-- The rules by their heads. -/
def byHead (rules : Ruleset α) : Std.TreeMap String (Ruleset α) :=
  rules.groupBy (fun rule => some rule.head) compare

end Constituency.Ruleset
