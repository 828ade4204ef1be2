import Constituency.Proofs.Chart.Termination
import Constituency.Proofs.Double.TotalOrder

/-!
# Charts with doubles for scores

A chart comes to an end if unary rules keep a property that the scores of all derivations have, and
do not gain on such scores. For doubles the property is to be a number that is not too great. A
derivation has one node with words or with two children for each word and between any two of them,
and no node adds more than one; so its score stays below twice the number of words, far from the
infinities, whose difference would be no number.

For the same reason cells of derivations are ranked by the total order of doubles, in which also what
is no number and the negative zero have a place: no score is either of them.
-/
namespace Constituency

instance NumberScore.instFloat : NumberScore Float where
  le_total := Double.le_total
  le_trans := Double.le_trans
  refl_of_le := Double.le_refl_of_le

/-- A logarithm of doubles that is not positive on probabilities, and not above one on what exceeds
them by the tolerance. -/
class DoubleLogarithm [Logarithm Float Float] : Prop where
  log_nonpos : ∀ {weight : Float}, 0 ≤ weight → weight ≤ 1 →
    (Logarithm.log weight : Float) ≤ 0
  log_le_one : ∀ {weight : Float}, 0 ≤ weight → weight ≤ 1 + Weight.tolerance →
    (Logarithm.log weight : Float) ≤ 1

variable [Logarithm Float Float] [DoubleLogarithm] {g : Grammar Float} {tokens : List String}

open Double

namespace Grammar

theorem atMost_log {rule : Rule Float} (h : rule ∈ g.rules) :
    AtMost (Logarithm.log rule.weight) 1 := by
  obtain ⟨-, -, hnonneg, hle⟩ := valid_of_mem h
  exact atMost_one.of_le (DoubleLogarithm.log_le_one hnonneg hle)

theorem log_nonpos (hg : ∀ rule ∈ g.rules, rule.unaryChild? ≠ none → rule.weight ≤ 1)
    {child : String} {rule : Rule Float} (hr : rule ∈ g.unaryRules child) :
    (Logarithm.log rule.weight : Float) ≤ 0 := by
  obtain ⟨-, -, hnonneg, -⟩ := valid_of_mem (mem_unaryRules.mp hr).1
  exact DoubleLogarithm.log_nonpos hnonneg (weight_le_one hg hr)

/-- Unary rules with weights of one at most keep doubles that are not too great, and lower them. -/
theorem steady_atMost (hg : ∀ rule ∈ g.rules, rule.unaryChild? ≠ none → rule.weight ≤ 1) {n : Nat}
    (hn : n < 2 ^ 53) : g.Steady (AtMost · n) where
  refl h := h.le_refl
  unary h hr := h.of_le (h.add_le hn (log_nonpos hg hr))
  noGain {label s t} hs h := by
    have hclimbs : ∀ label' t, g.Climbs label s label' t → AtMost t n ∧ t ≤ s := by
      intro label' t h
      induction h with
      | refl => exact ⟨hs, hs.le_refl⟩
      | unary _ hr ih =>
        have hle := ih.1.add_le hn (log_nonpos hg hr)
        exact ⟨ih.1.of_le hle, Double.le_trans hle ih.2⟩
    exact (hclimbs label t h).2

/-- Every node with a word and every node with two children adds one at most; of the latter there
is one fewer. -/
theorem atMost_score (hg : ∀ rule ∈ g.rules, rule.unaryChild? ≠ none → rule.weight ≤ 1)
    (hsmall : 2 * tokens.length < 2 ^ 53) {tree : Tree Float}
    (h : tree.Licensed g.rules tokens) : AtMost tree.score (2 * (tree.last - tree.first) + 1) := by
  have hlast := h.last_lt
  induction tree with
  | lexical rule token position =>
    obtain ⟨hmem, -⟩ := Tree.licensed_lexical.mp h
    exact (atMost_log hmem).mono (by omega)
  | unary rule child ih =>
    obtain ⟨hfits, hchild⟩ := Tree.licensed_unary.mp h
    have hscore := ih hchild hlast
    have hlog := log_nonpos hg (mem_unaryRules.mpr hfits)
    exact hscore.of_le (hscore.add_le (by simp only [Tree.last] at hlast; omega) hlog)
  | binary rule left right ihl ihr =>
    obtain ⟨⟨hmem, -, hadj⟩, hleft, hright⟩ := Tree.licensed_binary.mp h
    have hl := hleft.first_le_last
    have hr := hright.first_le_last
    simp only [Tree.last, Tree.first] at hlast ⊢
    have hsum := ((atMost_log hmem).add (ihl hleft (by omega)) (by omega)).add
      (ihr hright hlast) (by omega)
    exact hsum.mono (by omega)

/-- With doubles for scores, a chart without a limit comes to an end if no unary rule has a weight
above one and the places of the chart fit into a machine word. -/
theorem exists_chart_of_doubles
    (hg : ∀ rule ∈ g.rules, rule.unaryChild? ≠ none → rule.weight ≤ 1) (ht : tokens ≠ [])
    (hsize : tokens.length * (tokens.length + 1) < UInt64.size) {options : ParseOptions}
    (hlimit : options.maxSteps = none) : ∃ chart, g.chart tokens options = .ok chart := by
  have hsmall : 2 * tokens.length < 2 ^ 53 := by
    have hsquare : tokens.length * tokens.length < 2 ^ 32 * 2 ^ 32 :=
      Nat.lt_of_le_of_lt (Nat.mul_le_mul_left _ (Nat.le_succ _)) hsize
    have := Nat.mul_self_lt_mul_self_iff.mp hsquare
    omega
  refine exists_chart_of_steady (steady_atMost hg (n := 2 * tokens.length) hsmall)
    (fun tree h => (atMost_score hg hsmall h).mono ?_) ht hlimit
  have := h.last_lt
  omega

end Grammar

/-! ### The ranking of a cell -/

namespace Grammar

/-- A derivation has no node that adds more than one. -/
theorem atMost_score_nodes {tree : Tree Float} (h : tree.Licensed g.rules tokens)
    (hsmall : tree.subtrees.length < 2 ^ 53) : AtMost tree.score tree.subtrees.length := by
  induction tree with
  | lexical rule token position => exact atMost_log (Tree.licensed_lexical.mp h).1
  | unary rule child ih =>
    obtain ⟨⟨hmem, -⟩, hchild⟩ := Tree.licensed_unary.mp h
    simp only [Tree.subtrees, List.length_cons] at hsmall ⊢
    rw [Nat.add_comm]
    exact (atMost_log hmem).add (ih hchild (by omega)) (by omega)
  | binary rule left right ihl ihr =>
    obtain ⟨⟨hmem, -⟩, hleft, hright⟩ := Tree.licensed_binary.mp h
    simp only [Tree.subtrees, List.length_cons, List.length_append] at hsmall ⊢
    rw [Nat.add_comm, ← Nat.add_assoc]
    exact ((atMost_log hmem).add (ihl hleft (by omega)) (by omega)).add (ihr hright (by omega))
      (by omega)

variable (hlog : ∀ rule ∈ g.rules, ¬ IsNegativeZero (Logarithm.log rule.weight))
include hlog

omit [DoubleLogarithm] in
/-- No derivation has a negative zero for a score if no rule has one for a logarithm. -/
theorem not_isNegativeZero_score {tree : Tree Float} (h : tree.Licensed g.rules tokens) :
    ¬ IsNegativeZero tree.score := by
  cases tree with
  | lexical rule token position => exact hlog rule (Tree.licensed_lexical.mp h).1
  | unary rule child => exact not_isNegativeZero_add (hlog rule (Tree.licensed_unary.mp h).1.1)
  | binary rule left right =>
    exact not_isNegativeZero_add
      (not_isNegativeZero_add (hlog rule (Tree.licensed_binary.mp h).1.1))

/-- A cell of derivations is ranked in the total order of doubles, since their scores are numbers and
no negative zeros. -/
theorem ranking_eq_totalPlace {cell : Cell Float}
    (hcell : cell.Every fun a => a.tree.Licensed g.rules tokens ∧
      a.tree.subtrees.length < 2 ^ 53) :
    cell.ranking = cell.toList.mergeSort fun a b =>
      decide (totalPlace b.2.score ≤ totalPlace a.2.score) := by
  have hscore : ∀ entry ∈ cell.toList, entry.2.score ≤ entry.2.score ∧
      ¬ IsNegativeZero entry.2.score := by
    intro entry hentry
    obtain ⟨-, hlicensed, hsmall⟩ :=
      hcell entry.1 entry.2 (Std.TreeMap.mem_toList_iff_getElem?_eq_some.mp hentry)
    rw [entry.2.score_eq]
    exact ⟨(atMost_score_nodes hlicensed hsmall).le_refl, not_isNegativeZero_score hlog hlicensed⟩
  have hsorted := List.map_mergeSort (f := id) (l := cell.toList)
    (r := fun a b => Cell.ranksBefore a.2 b.2)
    (s := fun a b => decide (totalPlace b.2.score ≤ totalPlace a.2.score))
    fun a ha b hb => decide_eq_decide.mpr <|
      le_iff_totalPlace_le (hscore b hb).1 (hscore a ha).1 (hscore b hb).2 (hscore a ha).2
  rwa [List.map_id, List.map_id] at hsorted

end Grammar

end Constituency
