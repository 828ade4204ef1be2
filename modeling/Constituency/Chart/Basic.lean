import Constituency.Chart.Cell

/-!
# Charts

A chart has a cell for every span of a list of tokens, a span being given by its first and its last
token. The cells lie in one array, in the order of first tokens and then of last tokens; `slot?`
finds the place of a span. Storing a cell prunes it and changes no other cell.
-/
namespace Constituency

/-- A cell for every span of `length` tokens. -/
structure Chart (α : Type) {σ : Type} [Score σ] [Logarithm α σ] where
  length : Nat
  cells : Array (Cell α)
  size_cells : cells.size = length * (length + 1) / 2

namespace Chart

variable {α σ : Type} [Score σ] [Logarithm α σ]

/-- The chart with nothing in its cells. -/
def empty (length : Nat) : Chart α :=
  { length
    cells := Array.replicate (length * (length + 1) / 2) ∅
    size_cells := Array.size_replicate }

/-- The place of a span among the spans of `length` tokens. The rows before `first` have `length`,
`length - 1`, … cells. -/
def slot? (length first last : Nat) : Option Nat :=
  if first ≤ last ∧ last < length then some (first * (2 * length - first + 1) / 2 + (last - first))
  else none

/-- The cell of a span, if the tokens have such a span. -/
def cell? (chart : Chart α) (first last : Nat) : Option (Cell α) :=
  (slot? chart.length first last).bind (chart.cells[·]?)

/-- The cell of a span; empty if there is no such span. -/
def cell (chart : Chart α) (first last : Nat) : Cell α :=
  (chart.cell? first last).getD ∅

/-- The analysis that is held for a label over a span. -/
def best? (chart : Chart α) (label : String) (first last : Nat) : Option (Analysis α) :=
  (chart.cell first last)[label]?

/-- At most `count` analyses of a label over a span. A cell holds one for each label. -/
def bests (chart : Chart α) (label : String) (first last count : Nat) : List (Analysis α) :=
  (chart.best? label first last).toList.take count

/-- The analysis that is held for a label over all tokens. -/
def root? (chart : Chart α) (label : String) : Option (Analysis α) :=
  chart.best? label 0 (chart.length - 1)

/-- How many analyses the chart holds. -/
def entries (chart : Chart α) : Nat :=
  chart.cells.foldl (fun count cell => count + cell.size) 0

/-- The chart with a cell, pruned to the beam, at a span. -/
def store (chart : Chart α) (first last beam : Nat) (cell : Cell α) : Chart α :=
  match slot? chart.length first last with
  | some slot =>
    { chart with
      cells := chart.cells.setIfInBounds slot (cell.prune beam)
      size_cells := by simp [chart.size_cells] }
  | none => chart

@[simp] theorem length_store (chart : Chart α) (first last beam : Nat) (cell : Cell α) :
    (chart.store first last beam cell).length = chart.length := by
  unfold store; split <;> rfl

end Chart

end Constituency
