import Constituency.Tree.Basic
import Std.Data.TreeMap.Lemmas

/-!
# Cells

A cell holds, for one span, the best analysis of each label. An analysis that is offered takes the
place of the one with its label only if it is better, so that of equally good ones the first stays.
Ranking puts the best analysis first and keeps the order of labels among equally good ones; pruning
keeps the front of the ranking.
-/
namespace Constituency

/-- The best analysis of each label over a span. -/
abbrev Cell (α : Type) {σ : Type} [Score σ] [Logarithm α σ] :=
  Std.TreeMap String (Analysis α)

namespace Cell

variable {α σ : Type} [Score σ] [Logarithm α σ]

/-- Whether an analysis is better than what the cell holds for its label. -/
def accepts (cell : Cell α) (a : Analysis α) : Bool :=
  match cell[a.label]? with
  | some held => !decide (a.score ≤ held.score)
  | none => true

/-- Puts an analysis into the cell if it is accepted. -/
def offer (cell : Cell α) (a : Analysis α) : Cell α :=
  if cell.accepts a then cell.insert a.label a else cell

/-- The order of a ranking: the greater score first. Doubles that are scores of derivations are
numbers and no negative zeros; among these it is the total order of all doubles, by which cells are
sorted (`Grammar.ranking_eq_totalPlace`). -/
def ranksBefore (a b : Analysis α) : Bool :=
  decide (b.score ≤ a.score)

/-- The labels and analyses of a cell, the best first. -/
def ranking (cell : Cell α) : List (String × Analysis α) :=
  cell.toList.mergeSort fun a b => ranksBefore a.2 b.2

/-- The analyses of a cell, the best first. -/
def ranked (cell : Cell α) : List (Analysis α) :=
  cell.ranking.map (·.2)

/-- Keeps the best `beam` labels; a beam of zero keeps all. -/
def prune (beam : Nat) (cell : Cell α) : Cell α :=
  if 0 < beam ∧ beam < cell.size then .ofList (cell.ranking.take beam) else cell

end Cell

end Constituency
