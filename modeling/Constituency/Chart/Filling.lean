import Constituency.Chart.Basic
import Constituency.Chart.Closure

/-!
# Filling a chart

A chart is filled from short spans to long ones. A span of one token starts with the lexical rules
of the token; a longer span with the binary rules that join the analyses of two spans into which it
falls. Its cell is then closed under unary rules, pruned and stored. A lexical rule counts as one
step, a pair of analyses as one step whatever number of rules join it, and a unary rule as one step;
a chart that needs more steps than are allowed is not filled, and one without a limit may never be.
-/
namespace Constituency.Chart

variable {α σ : Type} [Score σ] [Logarithm α σ]

/-- The spans of a list of tokens, short ones first. -/
def spans (length : Nat) : List (Nat × Nat) :=
  (List.range length).flatMap fun more =>
    (List.range (length - more)).map fun first => (first, first + more)

variable [Weight α]

/-- What the lexical rules make of a token, by steps. -/
def ofToken (g : Grammar α) (token : String) (position : Nat) : List (List (Analysis α)) :=
  (g.lexicalRules (Text.lowerCase token)).map fun rule => [.lexical rule token position]

/-- What the binary rules make of the analyses in two cells, by steps. -/
def ofCells (g : Grammar α) (left right : Cell α) : List (List (Analysis α)) :=
  let rights := right.values
  left.values.flatMap fun a =>
    rights.map fun b => (g.binaryRules a.label b.label).map fun rule => .binary rule a b

/-- What a span starts with, by steps. -/
def starters (g : Grammar α) (tokens : Array String) (chart : Chart α) (first last : Nat) :
    List (List (Analysis α)) :=
  if first = last then (tokens[first]?.map (ofToken g · first)).getD []
  else (List.range' first (last - first)).flatMap fun split =>
    ofCells g (chart.cell first split) (chart.cell (split + 1) last)

/-- A chart, the steps that it has taken, and the analyses that were built for it, kept or not. -/
structure Progress (α : Type) {σ : Type} [Score σ] [Logarithm α σ] where
  chart : Chart α
  used : Nat
  built : Nat

/-- Fills one span. -/
def fillSpan (g : Grammar α) (tokens : Array String) (beam : Nat) (limit : Option Nat)
    (progress : Progress α) (span : Nat × Nat) : Counted (Progress α) := do
  let steps := starters g tokens progress.chart span.1 span.2
  let starting := steps.flatten
  let used := progress.used + steps.length
  if exceeds limit used then throw {}
  else
    let closed ← ExceptT.mk ((Closure.start (starting.foldl Cell.offer ∅) used).run g limit)
    return {
      chart := progress.chart.store span.1 span.2 beam closed.cell
      used := closed.used
      built := progress.built + starting.length + (closed.used - used) }

/-- Fills all spans. -/
def fill (g : Grammar α) (tokens : Array String) (beam : Nat) (limit : Option Nat) :
    Counted (Progress α) :=
  (spans tokens.size).foldlM (fillSpan g tokens beam limit)
    { chart := empty tokens.size, used := 0, built := 0 }

end Constituency.Chart
