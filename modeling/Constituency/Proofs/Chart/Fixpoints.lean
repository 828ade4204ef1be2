import Mathlib.Logic.Relation
import Mathlib.Order.Bounds.Defs
import Constituency.Proofs.Chart.Termination
import Constituency.Proofs.Language.Preservation

/-!
# A closure is the least fixpoint

A closure that comes to an end holds a label if unary rules lead from it down to a label that the
cell has held before, and for no other. The score of a label is the greatest of those that climb to
it from the scores that the cell has held: it is one of them, since nothing else is ever offered, and
no climb leads above it, since in the end no unary rule makes anything better. So any cell that
reaches the scores of the first one and leaves nothing to unary rules reaches those of the closure.

Of two analyses with one label that have been held one after the other, the later is better. So the
one that waits is passed over if and only if the cell no longer holds it.
-/
namespace Constituency

open Relation

variable {α σ : Type} [Score σ] [Logarithm α σ] [Weight α] {g : Grammar α}

namespace Grammar

/-- What climbs to a label climbs up a chain of unary rules. -/
theorem Climbs.reachable {label label' : String} {s t : σ} (h : g.Climbs label s label' t) :
    ReflTransGen g.rules.Steps label' label := by
  induction h with
  | refl => exact .refl
  | unary _ hr ih =>
    obtain ⟨hmem, hbody⟩ := mem_unaryRules.mp hr
    exact ih.head ⟨_, hmem, rfl, hbody⟩

/-- A score climbs up every chain of unary rules. -/
theorem exists_climbs {label label' : String} (h : ReflTransGen g.rules.Steps label' label) (s : σ) :
    ∃ t, g.Climbs label s label' t := by
  induction h using ReflTransGen.head_induction_on with
  | refl => exact ⟨s, .refl⟩
  | head hstep _ ih =>
    obtain ⟨rule, hmem, rfl, hbody⟩ := hstep
    obtain ⟨t, ht⟩ := ih
    exact ⟨_, ht.unary (mem_unaryRules.mpr ⟨hmem, hbody⟩)⟩

/-- The scores that climb to a label from what a cell holds. -/
def climbing (g : Grammar α) (cell : Cell α) (label : String) : Set σ :=
  {t | ∃ child a, cell[child]? = some a ∧ g.Climbs child a.score label t}

end Grammar

/-! ### Cells that leave nothing to unary rules -/

/-- A cell that leaves nothing to unary rules reaches what climbs from the scores it reaches. -/
theorem Cell.Settled.reaches_of_climbs [LawfulScore σ] {cell : Cell α}
    (h : cell.Settled (· ≤ ·) g) {label label' : String} {s t : σ}
    (hs : cell.Reaches (· ≤ ·) label s) (hclimbs : g.Climbs label s label' t) :
    cell.Reaches (· ≤ ·) label' t := by
  induction hclimbs with
  | refl => exact hs
  | unary _ hr ih =>
    obtain ⟨a, ha, hle⟩ := ih
    exact (h _ a ha _ hr).mono Score.comparison_le (LawfulScore.add_le_add_left _ hle)

namespace Closure

/-! ### What waits and what is passed over -/

/-- Whatever waits is held, or the cell holds something better. -/
def Superseding (c : Closure α) : Prop :=
  ∀ a ∈ c.pending, ∃ held, c.cell[a.label]? = some held ∧ (held = a ∨ ¬ held.score ≤ a.score)

omit [Weight α] in
theorem superseding_start {P : Analysis α → Prop} {cell : Cell α} (h : cell.Every P) (used : Nat) :
    (start cell used).Superseding := by
  intro a ha
  obtain ⟨label, hl⟩ := Cell.mem_values.mp (List.mem_reverse.mp ha)
  exact ⟨a, (h label a hl).1 ▸ hl, .inl rfl⟩

variable [TotalScore σ]

omit [Weight α] in
theorem Superseding.apply {c : Closure α} (h : c.Superseding) (child : Analysis α)
    (rule : Rule α) : (c.apply child rule).Superseding := by
  intro a ha
  rw [pending_apply] at ha
  rw [cell_apply, Cell.getElem?_offer]
  by_cases hc : c.cell.accepts (.unary rule child) = true
  · rw [if_pos hc] at ha
    by_cases hlabel : (Analysis.unary rule child).label = a.label
    · refine ⟨_, if_pos ⟨hc, hlabel⟩, ?_⟩
      rcases List.mem_cons.mp ha with rfl | ha
      · exact .inl rfl
      · obtain ⟨held, hheld, hbetter⟩ := h a ha
        have hmade := Cell.not_le_of_accepts hc (hlabel ▸ hheld)
        rcases hbetter with rfl | hbetter
        · exact .inr hmade
        · have hle := (TotalScore.le_total held.score a.score).resolve_left hbetter
          exact .inr fun hge => hmade (TotalScore.le_trans hge hle)
    · rw [if_neg fun hboth => hlabel hboth.2]
      rcases List.mem_cons.mp ha with rfl | ha
      · exact absurd rfl hlabel
      · exact h a ha
  · rw [if_neg hc] at ha
    rw [if_neg fun hboth => hc hboth.1]
    exact h a ha

omit [Weight α] in
theorem Superseding.foldl_apply {c : Closure α} (h : c.Superseding) (child : Analysis α)
    (rules : Ruleset α) : (rules.foldl (Closure.apply child) c).Superseding := by
  induction rules generalizing c with
  | nil => exact h
  | cons rule rules ih => exact ih (h.apply child rule)

theorem Superseding.step {c : Closure α} (h : c.Superseding) : (c.step g).Superseding := by
  by_cases hp : c.pending = []
  · rw [Closure.step, hp]
    exact h
  · obtain ⟨child, rest, hc⟩ := List.exists_cons_of_ne_nil hp
    have hrest : Superseding { c with pending := rest } :=
      fun a ha => h a (hc ▸ List.mem_cons_of_mem child ha)
    rcases step_cons (g := g) hc with ⟨hs, -⟩ | ⟨hs, -⟩
    · exact hs ▸ hrest
    · exact hs ▸ hrest.foldl_apply child _

theorem Superseding.iterate {c : Closure α} (h : c.Superseding) (count : Nat) :
    ((Closure.step g)^[count] c).Superseding := by
  induction count with
  | zero => exact h
  | succ count ih =>
    rw [Function.iterate_succ_apply']
    exact ih.step

/-- At any time, what waits is passed over just if the cell no longer holds it. -/
theorem hasBetter_iff_not_held {P : Analysis α → Prop} {cell : Cell α} (h : cell.Every P)
    (used count : Nat) {a : Analysis α} (ha : a ∈ ((step g)^[count] (start cell used)).pending) :
    ((step g)^[count] (start cell used)).cell.hasBetter a = true ↔
      ((step g)^[count] (start cell used)).cell[a.label]? ≠ some a := by
  obtain ⟨held, hheld, hbetter⟩ := (superseding_start h used).iterate count a ha
  have hiff : held = a ↔ held.score ≤ a.score := by
    rcases hbetter with rfl | hnot
    · exact iff_of_true rfl (TotalScore.le_refl _)
    · refine iff_of_false ?_ hnot
      rintro rfl
      exact hnot (TotalScore.le_refl _)
  simp [Cell.hasBetter, hheld, hiff]

end Closure

/-! ### The closure of a cell -/

namespace Closure

variable {limit : Option Nat} {cell : Cell α} {used : Nat} {closed : Closure α}

/-- Whatever the closure of a cell holds has climbed from what the cell holds. -/
theorem every_climbing (hcell : cell.Every fun _ => True)
    (h : (start cell used).run g limit = some (.ok closed)) :
    closed.cell.Every fun a => a.score ∈ g.climbing cell a.label := by
  refine every_run (fun a ha rule hr => ?_) h fun label a hl => ?_
  · obtain ⟨child, b, hb, hclimbs⟩ := ha
    exact ⟨child, b, hb, hclimbs.unary hr⟩
  · have hlabel := (hcell label a hl).1
    exact ⟨hlabel, label, a, hl, hlabel ▸ .refl⟩

variable [LawfulScore σ]

/-- The closure of a cell reaches whatever climbs from what the cell holds. -/
theorem reaches_of_mem_climbing (hcell : cell.Every fun _ => True)
    (h : (start cell used).run g limit = some (.ok closed)) {label : String} {t : σ}
    (ht : t ∈ g.climbing cell label) : closed.cell.Reaches (· ≤ ·) label t := by
  obtain ⟨child, a, ha, hclimbs⟩ := ht
  have hstart : cell.Reaches (· ≤ ·) child a.score := ⟨a, ha, TotalScore.le_refl _⟩
  exact (settled_run h hcell).reaches_of_climbs
    (reaches_run Score.comparison_le h hstart) hclimbs

/-- When the closure of a cell ends, the labels that it holds are those from which unary rules lead
down to a label of the cell. The score of each is the greatest that climbs to it from the cell, so
that no label loses, and no unary rule makes anything better of what is held. Of all cells that have
this last property and reach the scores of the first cell it reaches the least scores. -/
theorem run_isLeast (g : Grammar α)
    (hcell : ∀ (label : String) (a : Analysis α), cell[label]? = some a → a.label = label)
    (h : (start cell used).run g limit = some (.ok closed)) :
    (∀ label, (∃ a, closed.cell[label]? = some a) ↔
      ∃ child a, cell[child]? = some a ∧ ReflTransGen g.rules.Steps label child) ∧
    (∀ label a, closed.cell[label]? = some a → a.label = label ∧
      (∀ b, cell[label]? = some b → b.score ≤ a.score) ∧
      IsGreatest {t | ∃ child b, cell[child]? = some b ∧ g.Climbs child b.score label t} a.score) ∧
    (∀ child a, closed.cell[child]? = some a →
      ∀ rule ∈ g.rules, rule.body = [.nonterminal child] →
        ∃ b, closed.cell[rule.head]? = some b ∧ Logarithm.log rule.weight + a.score ≤ b.score) ∧
    ∀ other : Cell α, other.Settled (· ≤ ·) g →
      (∀ label a, cell[label]? = some a → other.Reaches (· ≤ ·) label a.score) →
        ∀ label a, closed.cell[label]? = some a → other.Reaches (· ≤ ·) label a.score := by
  have hevery : cell.Every fun _ => True := fun label a ha => ⟨hcell label a ha, trivial⟩
  have hclimbing := every_climbing hevery h
  have hsettled := settled_run h hevery
  refine ⟨fun label => ⟨?labels, ?held⟩, fun label a ha => ?scores,
    fun child a ha rule hr hbody => ?settled, fun other hother hreaches label a ha => ?least⟩
  case labels =>
    rintro ⟨a, ha⟩
    obtain ⟨rfl, child, b, hb, hclimbs⟩ := hclimbing label a ha
    exact ⟨child, b, hb, hclimbs.reachable⟩
  case held =>
    rintro ⟨child, b, hb, hreach⟩
    obtain ⟨t, ht⟩ := Grammar.exists_climbs hreach b.score
    obtain ⟨a, ha, -⟩ := reaches_of_mem_climbing hevery h ⟨child, b, hb, ht⟩
    exact ⟨a, ha⟩
  case scores =>
    have hbound : ∀ t ∈ g.climbing cell label, t ≤ a.score := by
      intro t ht
      obtain ⟨b, hb, hle⟩ := reaches_of_mem_climbing hevery h ht
      obtain rfl := Option.some.inj (ha.symm.trans hb)
      exact hle
    obtain ⟨rfl, hmem⟩ := hclimbing label a ha
    exact ⟨rfl, fun b hb => hbound _ ⟨_, b, hb, .refl⟩, hmem, hbound⟩
  case settled =>
    exact hsettled child a ha rule (Grammar.mem_unaryRules.mpr ⟨hr, hbody⟩)
  case least =>
    obtain ⟨rfl, child, b, hb, hclimbs⟩ := hclimbing label a ha
    exact hother.reaches_of_climbs (hreaches child b hb) hclimbs

/-- Two labels that rewrite each other, one with a score that the way from the other exceeds. -/
noncomputable def unevenCell : Cell ℚ :=
  ((∅ : Cell ℚ).insert "A" (.lexical (.lexical "A" "x" (1 / 2)) "x" 0)).insert "B"
    (.lexical (.lexical "B" "y" (1 / 8)) "y" 0)

theorem getElem?_unevenCell (label : String) :
    unevenCell[label]? =
      if "B" = label then some (.lexical (.lexical "B" "y" (1 / 8)) "y" 0)
      else if "A" = label then some (.lexical (.lexical "A" "x" (1 / 2)) "x" 0) else none := by
  simp [unevenCell, Std.TreeMap.getElem?_insert, Std.LawfulEqCmp.compare_eq_iff_eq]

/-- The closure comes to an end in spite of the cycle, and holds the greater score. -/
theorem run_isLeast_uneven :
    (∀ (label : String) (a : Analysis ℚ), unevenCell[label]? = some a → a.label = label) ∧
      ∃ closed, (start unevenCell 0).run Grammar.cyclic none = some (.ok closed) ∧
        ∃ a, closed.cell["B"]? = some a ∧
          Real.log (1 / 2 : ℚ) + Real.log (1 / 2 : ℚ) ≤ a.score := by
  have hcell : ∀ (label : String) (a : Analysis ℚ), unevenCell[label]? = some a →
      a.label = label := by
    intro label a ha
    rw [getElem?_unevenCell] at ha
    split_ifs at ha with hB hA
    · cases ha
      exact hB
    · cases ha
      exact hA
  have hone : ∀ rule ∈ Grammar.cyclic.rules, rule.weight ≤ 1 := by decide +kernel
  have hgain : Grammar.cyclic.NoGain := Grammar.noGain_of_weight_le_one fun rule hr _ => hone rule hr
  have hevery : unevenCell.Every fun _ => True := fun label a ha => ⟨hcell label a ha, trivial⟩
  obtain ⟨closed, hrun⟩ := (tracked_start hgain.steady hevery 0).exists_run hgain.steady
    (complete_pool Grammar.cyclic unevenCell)
  obtain ⟨hlabels, hscores, -⟩ := run_isLeast Grammar.cyclic hcell hrun
  have hB : unevenCell["B"]? = some (.lexical (.lexical "B" "y" (1 / 8)) "y" 0) :=
    getElem?_unevenCell "B"
  have hA : unevenCell["A"]? = some (.lexical (.lexical "A" "x" (1 / 2)) "x" 0) :=
    getElem?_unevenCell "A"
  obtain ⟨a, ha⟩ := (hlabels "B").mpr ⟨"B", _, hB, .refl⟩
  have hrule : Rule.unary "B" "A" (1 / 2) ∈ Grammar.cyclic.unaryRules "A" :=
    Grammar.mem_unaryRules.mpr ⟨by decide +kernel, rfl⟩
  exact ⟨hcell, closed, hrun, a, ha,
    (hscores "B" a ha).2.2.2 ⟨"A", _, hA, Grammar.Climbs.refl.unary hrule⟩⟩

end Closure

end Constituency
