import Constituency.Rule

/-!
# Why rules are refused

The causes for which a list of rules makes no grammar, or cannot be rescaled, and the wording of
each.
-/
namespace Constituency

/-- Why a list of rules makes no grammar or cannot be rescaled. -/
inductive GrammarError (α : Type) where
  /-- A rule rewrites a label without characters. -/
  | emptyHead (rule : Rule α)
  /-- A rule rewrites its label to nothing. -/
  | emptyBody (rule : Rule α)
  /-- A weight is not what rules at this place may carry. -/
  | weightOutOfRange (rule : Rule α)
  /-- There is no rule at all. -/
  | noRules
  /-- The constant to be added to each weight is not a positive number. -/
  | smoothingConstant (constant : α)
deriving Repr

namespace GrammarError

variable {α : Type}

/-- Whether the rules are at fault, and not a choice of the caller. -/
def isMalformed : GrammarError α → Bool
  | smoothingConstant _ => false
  | _ => true

variable [DecimalText α]

/-- A weight as a message shows it. -/
def shownWeight (weight : α) : String :=
  String.ofList (DecimalText.text weight)

/-- What is wrong, without the kind of error. -/
def reason : GrammarError α → String
  | emptyHead rule => "rule with empty left-hand side: " ++ rule.text
  | emptyBody rule => rule.head ++ " has an empty right-hand side"
  | weightOutOfRange rule =>
    "probability " ++ shownWeight rule.weight ++ " out of range in " ++ rule.text
  | noRules => "empty ruleset"
  | smoothingConstant constant =>
    "smoothing constant must be positive, got " ++ shownWeight constant

/-- The whole message. -/
def message (e : GrammarError α) : String :=
  (if e.isMalformed then "malformed grammar: " else "invalid option: ") ++ e.reason

end GrammarError

end Constituency
