import Constituency.Chart.Filling

/-!
# Parsing

A parse is the best analysis of all tokens with the start label. It can fail because there are no
tokens, because no analysis has the label, or because the chart needs more steps than the caller
allows. Without a limit a chart may never be complete: `chart?` has no answer then, and `chart`
answers with a limit that no caller can set.
-/
namespace Constituency

/-- What a caller may choose. -/
structure ParseOptions where
  /-- The label that the whole input must have. -/
  start : String := "S"
  /-- How many labels a cell keeps; zero for all. -/
  beam : Nat := 10
  /-- How many steps the chart may take. -/
  maxSteps : Option UInt64 := none
deriving DecidableEq, Repr

/-- The number of steps that are allowed, if it is limited. -/
def ParseOptions.limit (options : ParseOptions) : Option Nat :=
  options.maxSteps.map UInt64.toNat

/-- Why tokens have no parse. -/
inductive ParseError where
  | emptyInput
  | noParse (start : String) (tokens : Nat)
  | budgetExceeded (limit : Nat)
deriving DecidableEq, Repr

/-- The message of an error. -/
def ParseError.message : ParseError → String
  | emptyInput => "cannot parse an empty token sequence"
  | noParse start tokens =>
    "no parse rooted at " ++ start ++ " covers all " ++ tokens.repr ++ " tokens"
  | budgetExceeded limit =>
    "step budget of " ++ limit.repr ++ " exhausted before the chart was complete"

namespace Grammar

variable {α σ : Type} [Weight α] [Score σ] [Logarithm α σ]

/-- The chart of a list of tokens, or why there is none; nothing if it is never complete. -/
def chart? (g : Grammar α) (tokens : List String) (options : ParseOptions) :
    Option (Except ParseError (Chart α)) :=
  if tokens.isEmpty then some (.error .emptyInput)
  else
    (Chart.fill g tokens.toArray options.beam options.limit).run.map fun
      | .ok progress => .ok progress.chart
      | .error _ => .error (.budgetExceeded (options.limit.getD UInt64.size))

/-- The chart of a list of tokens. -/
def chart (g : Grammar α) (tokens : List String) (options : ParseOptions) :
    Except ParseError (Chart α) :=
  (g.chart? tokens options).getD (.error (.budgetExceeded UInt64.size))

/-- The best analysis of a list of tokens with the start label. -/
def parse (g : Grammar α) (tokens : List String) (options : ParseOptions) :
    Except ParseError (Analysis α) := do
  let chart ← g.chart tokens options
  match chart.root? options.start with
  | some analysis => return analysis
  | none => throw (.noParse options.start tokens.length)

end Grammar

end Constituency
