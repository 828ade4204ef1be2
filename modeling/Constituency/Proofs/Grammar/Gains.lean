import Constituency.Proofs.ExactWeights
import Constituency.Proofs.Grammar.Lookups
import Constituency.Proofs.Tree.Rounds

/-!
# What unary rules add to a score

A score climbs along unary rules, each of which adds the logarithm of its weight. No cycle of unary
rules gains if a score that comes back to its label has not become greater. This is so if all unary
rules have weights of one at most; a weight that exceeds one by the tolerance may gain.
-/
namespace Constituency

/-- Logarithms of probabilities do not raise a score. -/
class LawfulLogarithm (α : Type) {σ : Type} [Weight α] [Score σ] [Logarithm α σ] : Prop where
  log_add_le : ∀ {weight : α} (s : σ), 0 ≤ weight → weight ≤ 1 → Logarithm.log weight + s ≤ s

instance LawfulLogarithm.instRatReal : LawfulLogarithm ℚ where
  log_add_le {weight} s h h' := by
    have hweight : Real.log weight ≤ 0 :=
      Real.log_nonpos (by exact_mod_cast h) (by exact_mod_cast h')
    exact add_le_of_nonpos_left hweight

namespace Grammar

variable {α σ : Type} [Weight α] [Score σ] [Logarithm α σ] {g : Grammar α}

/-- A label with a score, and a label with a score that unary rules make of them. -/
inductive Climbs (g : Grammar α) (label : String) (s : σ) : String → σ → Prop
  | refl : Climbs g label s label s
  | unary {child : String} {t : σ} {rule : Rule α} (h : Climbs g label s child t)
      (hr : rule ∈ g.unaryRules child) : Climbs g label s rule.head (Logarithm.log rule.weight + t)

/-- No score is greater when it comes back to its label. -/
def NoGain (g : Grammar α) : Prop :=
  ∀ (label : String) (s t : σ), g.Climbs label s label t → t ≤ s

/-- The score of a tree has climbed along its spine. -/
theorem climbs_of_mem_spine {tokens : List String} {tree node : Tree α}
    (h : tree.Licensed g.rules tokens) (hn : node ∈ tree.spine) :
    g.Climbs node.label node.score tree.label tree.score := by
  induction tree with
  | lexical rule token position =>
    obtain rfl := List.mem_singleton.mp hn
    exact .refl
  | binary rule left right =>
    obtain rfl := List.mem_singleton.mp hn
    exact .refl
  | unary rule child ih =>
    obtain ⟨hfits, hchild⟩ := Tree.licensed_unary.mp h
    rcases List.mem_cons.mp hn with rfl | hn
    · exact .refl
    · exact .unary (ih hchild hn) (mem_unaryRules.mpr hfits)

/-- Where unary rules have weights of one at most, so have those that lead up from a label. -/
theorem weight_le_one (hg : ∀ rule ∈ g.rules, rule.unaryChild? ≠ none → rule.weight ≤ 1)
    {child : String} {rule : Rule α} (hr : rule ∈ g.unaryRules child) : rule.weight ≤ 1 := by
  obtain ⟨hmem, hbody⟩ := mem_unaryRules.mp hr
  have hsome : rule.unaryChild? = some child := Rule.unaryChild?_eq_some_iff.mpr hbody
  exact hg rule hmem (by rw [hsome]; exact Option.some_ne_none child)

variable [TotalScore σ] [LawfulLogarithm α]

/-- Unary rules with weights of one at most lower every score that climbs. -/
theorem Climbs.le (hg : ∀ rule ∈ g.rules, rule.unaryChild? ≠ none → rule.weight ≤ 1)
    {label label' : String} {s t : σ} (h : g.Climbs label s label' t) : t ≤ s := by
  induction h with
  | refl => exact TotalScore.le_refl _
  | unary _ hr ih =>
    obtain ⟨-, -, hnonneg, -⟩ := valid_of_mem (mem_unaryRules.mp hr).1
    exact TotalScore.le_trans (LawfulLogarithm.log_add_le _ hnonneg (weight_le_one hg hr)) ih

theorem noGain_of_weight_le_one
    (hg : ∀ rule ∈ g.rules, rule.unaryChild? ≠ none → rule.weight ≤ 1) : g.NoGain :=
  fun _ _ _ h => h.le hg

end Grammar

end Constituency
