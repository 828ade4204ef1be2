import Constituency.Chart.Cell
import Constituency.Grammar.Basic

/-!
# Closure under unary rules

The closure of a cell offers to it whatever a unary rule makes of an analysis in it, until nothing
better arises. Accepted analyses wait on a stack; one that has been replaced by a better one in the
meantime is passed over when its turn comes. Every rule that is applied counts as a step. With a
limit on the steps a closure either ends or exhausts them; without one it may go on forever, and
then it has no outcome.
-/
namespace Constituency

/-- The steps that are allowed do not suffice. -/
structure Exhausted where
deriving DecidableEq, Repr

/-- Work whose steps are counted: it ends with a result or exhausts the steps that are allowed. Work
that never ends has no outcome. -/
abbrev Counted := ExceptT Exhausted Option

/-- Whether a number of steps is more than the limit, if there is one, allows. -/
def exceeds (limit : Option Nat) (used : Nat) : Bool :=
  limit.any (· < used)

@[simp] theorem exceeds_none (used : Nat) : exceeds none used = false := rfl

@[simp] theorem exceeds_some (limit used : Nat) :
    exceeds (some limit) used = decide (limit < used) := rfl

/-- A closure in progress: the cell, the analyses that wait, the next one first, and the steps
taken. -/
structure Closure (α : Type) {σ : Type} [Score σ] [Logarithm α σ] where
  cell : Cell α
  pending : List (Analysis α)
  used : Nat

/-- Whether the cell holds something better for the label of an analysis. -/
def Cell.hasBetter {α σ : Type} [Score σ] [Logarithm α σ] (cell : Cell α) (a : Analysis α) : Bool :=
  match cell[a.label]? with
  | some held => !decide (held.score ≤ a.score)
  | none => false

namespace Closure

variable {α σ : Type} [Score σ] [Logarithm α σ]

/-- Begins with all analyses of a cell, from the last label to the first. -/
def start (cell : Cell α) (used : Nat) : Closure α :=
  { cell, pending := cell.values.reverse, used }

/-- Applies a unary rule to an analysis; what is accepted waits on the stack. -/
def apply (child : Analysis α) (c : Closure α) (rule : Rule α) : Closure α :=
  let a := Analysis.unary rule child
  if c.cell.accepts a then
    { cell := c.cell.insert a.label a, pending := a :: c.pending, used := c.used + 1 }
  else { c with used := c.used + 1 }

@[simp] theorem used_apply (child : Analysis α) (c : Closure α) (rule : Rule α) :
    (c.apply child rule).used = c.used + 1 := by
  simp only [apply]; split <;> rfl

@[simp] theorem used_foldl_apply (child : Analysis α) (c : Closure α) (rules : Ruleset α) :
    (rules.foldl (apply child) c).used = c.used + rules.length := by
  induction rules generalizing c with
  | nil => rfl
  | cons rule rules ih => rw [List.foldl_cons, ih, used_apply, List.length_cons]; omega

variable [Weight α]

/-- Works off the next analysis: applies all unary rules to it, unless there is a better one. -/
def step (g : Grammar α) (c : Closure α) : Closure α :=
  match c.pending with
  | [] => c
  | child :: rest =>
    if c.cell.hasBetter child then { c with pending := rest }
    else (g.unaryRules child.label).foldl (apply child) { c with pending := rest }

theorem used_le_step (g : Grammar α) (c : Closure α) : c.used ≤ (c.step g).used := by
  unfold step
  split
  · exact Nat.le_refl _
  · split
    · exact Nat.le_refl _
    · rw [used_foldl_apply]; exact Nat.le_add_right _ _

/-- Working off an analysis takes a step or leaves fewer of them waiting. -/
theorem used_lt_step_or (g : Grammar α) {c : Closure α} (h : c.pending ≠ []) :
    c.used < (c.step g).used ∨ (c.step g).pending.length < c.pending.length := by
  obtain ⟨child, rest, hp⟩ := List.exists_cons_of_ne_nil h
  simp only [step, hp]
  split
  · exact .inr (Nat.lt_succ_self _)
  · cases g.unaryRules child.label with
    | nil => exact .inr (Nat.lt_succ_self _)
    | cons rule rules => rw [used_foldl_apply]; exact .inl (by simp)

/-- The closure in the end. -/
def run (g : Grammar α) (limit : Option Nat) (c : Closure α) :
    Option (Except Exhausted (Closure α)) :=
  if c.pending.isEmpty then some (.ok c)
  else
    let next := c.step g
    if exceeds limit next.used then some (.error {}) else next |>.run g limit
partial_fixpoint

/-- With a limit there is an outcome, since no closure can go on without taking steps. -/
theorem run_ne_none (g : Grammar α) (limit : Nat) (c : Closure α) :
    c.run g (some limit) ≠ none := by
  rw [run]
  by_cases hp : c.pending = []
  · simp [hp]
  · by_cases hn : limit < (c.step g).used
    · simp [hp, hn]
    · simpa [hp, hn] using run_ne_none g limit (c.step g)
termination_by (limit - c.used, c.pending.length)
decreasing_by
  rcases used_lt_step_or g hp with hu | hl
  · exact Prod.Lex.left _ _ (by omega)
  · rcases Nat.lt_or_eq_of_le (used_le_step g c) with hu | hu
    · exact Prod.Lex.left _ _ (by omega)
    · rw [← hu]; exact Prod.Lex.right _ hl

end Closure

end Constituency
