import Constituency.Proofs.Weighted.Solutions
import Constituency.Proofs.NormalForm.Weights

/-!
# Solutions and unary chains

Without cycles among unary rules every chain can be followed to its end. If each label gives what
the bodies of its rules give together (`Balanced`), the ends of the chains through it, each with the
product along its chain, give the same; so a solution of the rules solves them without unary rules
too (`Solves.eliminateUnary`).
-/
namespace Constituency.Ruleset

open Relation

section Acyclic

variable {α : Type} {rules : Ruleset α} {available : List String} {label child : String}

/-- Whether no label comes back to itself by unary rules. -/
def Acyclic (rules : Ruleset α) : Prop :=
  ∀ label, ¬ TransGen rules.Steps label label

/-- Whether all labels with rules to which unary rules lead are available. -/
def Covers (rules : Ruleset α) (available : List String) (label : String) : Prop :=
  ∀ other body, ReflTransGen rules.Steps label other → rules.Has other body → other ∈ available

/-- A chain that has left a label does without it. -/
theorem Covers.step (h : rules.Covers available label) (hacyclic : rules.Acyclic)
    (hstep : rules.Steps label child) : rules.Covers (leave label available) child := by
  intro other body hreach hother
  refine mem_leave.mpr ⟨h other body (hreach.head hstep) hother, ?_⟩
  rintro rfl
  exact hacyclic other (TransGen.head' hstep hreach)

theorem covers_heads (label : String) : rules.Covers (rules.map (·.head)) label := by
  rintro other body - ⟨rule, hr, rfl, -⟩
  exact List.mem_map_of_mem hr

/-- What holds of a label whenever it holds of all its unary children holds of all labels. -/
theorem Acyclic.induction (hacyclic : rules.Acyclic) {P : String → Prop}
    (h : ∀ label, (∀ child, rules.Steps label child → P child) → P label) (label : String) :
    P label := by
  have hcovered : ∀ n available label, available.length = n → rules.Covers available label →
      P label := by
    intro n
    induction n using Nat.strong_induction_on with
    | _ n ih =>
      rintro available label rfl hcovers
      refine h label fun child hstep => ?_
      have hmem : label ∈ available := hcovers label _ .refl hstep
      exact ih _ (length_leave_lt hmem) _ child rfl (hcovers.step hacyclic hstep)
  exact hcovered _ _ label rfl (covers_heads label)

theorem nonLoops_eq (hacyclic : rules.Acyclic) : rules.nonLoops = rules := by
  refine List.filter_eq_self.mpr fun rule hr => ?_
  rw [Bool.not_eq_true', isLoop, decide_eq_false_iff_not]
  intro hloop
  exact hacyclic rule.head (.single (steps_of_mem hr hloop))

theorem covers_chainLabels (hacyclic : rules.Acyclic) (label : String) :
    rules.Covers rules.chainLabels label := by
  rintro other body - ⟨rule, hr, rfl, -⟩
  exact mem_keys_byHead.mpr ⟨rule, (nonLoops_eq hacyclic).symm ▸ hr, rfl⟩

end Acyclic

variable {rules : Ruleset ℚ} {F : String → Series} {φ : List Symbol → ℚ}

/-! ### The ends of chains -/

/-- The weighted sum of what the bodies that end chains give. -/
def endSum (φ : List Symbol → ℚ) (ends : List (List Symbol × ℚ)) : ℚ :=
  (ends.map fun e => e.2 * φ e.1).sum

theorem endSum_flatMap {ι : Type} (items : List ι) (f : ι → List (List Symbol × ℚ)) :
    endSum φ (items.flatMap f) = (items.map fun i => endSum φ (f i)).sum := by
  simp [endSum, List.flatMap, List.sum_flatten, Function.comp_def]

/-- Whether a label gives what the bodies of its rules give together. -/
def Balanced (rules : Ruleset ℚ) (φ : List Symbol → ℚ) : Prop :=
  ∀ label, φ [.nonterminal label] = rules.mass (bodiesAt φ label)

/-- The rules that go on at a label make up what it gives. -/
theorem Balanced.sum_goingOn (h : rules.Balanced φ) (hacyclic : rules.Acyclic) (label : String) :
    ((rules.goingOn label).map fun rule => rule.weight * φ rule.body).sum =
      φ [.nonterminal label] := by
  rw [h label, goingOn, nonLoops_eq hacyclic, mass_bodiesAt]

/-- The ends of all chains through a label give what the label gives. -/
theorem Balanced.endSum_expansions (h : rules.Balanced φ) (hacyclic : rules.Acyclic)
    {available : List String} {label : String} (weight : ℚ)
    (hcovers : rules.Covers available label) :
    endSum φ (expansions rules.goingOn available label weight) =
      weight * φ [.nonterminal label] := by
  fun_induction expansions rules.goingOn available label weight with
  | case1 available label weight hmem ih =>
    rw [endSum_flatMap, ← h.sum_goingOn hacyclic, ← List.sum_map_mul_left]
    refine congrArg List.sum (List.map_congr_left fun rule hr => ?_)
    obtain ⟨hrule, -, rfl⟩ := mem_goingOn.mp hr
    cases hc : rule.unaryChild? with
    | some child =>
      have hstep : rules.Steps rule.head child := steps_of_mem hrule hc
      rw [Rule.unaryChild?_eq_some_iff.mp hc]
      simp only
      rw [ih rule child (hcovers.step hacyclic hstep), mul_assoc]
    | none => simp [endSum, mul_assoc]
  | case2 available label weight hmem =>
    have hnone : ∀ body, ¬ rules.Has label body :=
      fun body hbody => hmem (hcovers label body .refl hbody)
    rw [h label, mass_bodiesAt_eq_zero hnone, mul_zero]
    rfl

/-- What takes the place of a unary rule gives what the ends of its chains give. -/
theorem mass_withoutUnary_of_unary {rule : Rule ℚ} {child : String}
    (hc : rule.unaryChild? = some child) (label : String) :
    (withoutUnary rules.goingOn rules.chainLabels rule).mass (bodiesAt φ label) =
      if rule.head = label then
        endSum φ (expansions rules.goingOn (leave rule.head rules.chainLabels) child rule.weight)
      else 0 := by
  rw [withoutUnary, hc]
  simp only [mass, List.map_map, Function.comp_def, Rule.derive, bodiesAt]
  split
  · rfl
  · simp

/-- What takes the place of a rule gives what the rule gave. -/
theorem Balanced.mass_withoutUnary (h : rules.Balanced φ) (hacyclic : rules.Acyclic)
    {rule : Rule ℚ} (hr : rule ∈ rules) (label : String) :
    (withoutUnary rules.goingOn rules.chainLabels rule).mass (bodiesAt φ label) =
      rule.weight * bodiesAt φ label rule.head rule.body := by
  cases hc : rule.unaryChild? with
  | none => simp [withoutUnary, hc]
  | some child =>
    have hcovers : rules.Covers (leave rule.head rules.chainLabels) child :=
      (covers_chainLabels hacyclic rule.head).step hacyclic (steps_of_mem hr hc)
    rw [mass_withoutUnary_of_unary hc, h.endSum_expansions hacyclic rule.weight hcovers, bodiesAt,
      Rule.unaryChild?_eq_some_iff.mp hc, mul_ite, mul_zero]

/-- Eliminating unary rules keeps what a label gives. -/
theorem Balanced.mass_eliminateUnary (h : rules.Balanced φ) (hacyclic : rules.Acyclic)
    (label : String) :
    rules.eliminateUnary.mass (bodiesAt φ label) = rules.mass (bodiesAt φ label) := by
  rw [eliminateUnary_eq, mass_merge, mass_flatMap, nonLoops_eq hacyclic]
  exact congrArg List.sum (List.map_congr_left fun rule hr =>
    h.mass_withoutUnary hacyclic hr label)

theorem Solves.balanced (h : rules.Solves F) (words : List String) :
    rules.Balanced fun body => bodySeries F body words := by
  intro label
  simp only [bodySeries_singleton]
  exact h label words

/-- Eliminating unary rules keeps solutions. -/
theorem Solves.eliminateUnary (h : rules.Solves F) (hacyclic : rules.Acyclic) :
    rules.eliminateUnary.Solves F := by
  intro label words
  rw [h label words]
  exact ((h.balanced words).mass_eliminateUnary hacyclic label).symm

/-! ### Positive weights -/

theorem kept_pos : Kept fun weight : ℚ => 0 < weight where
  one := zero_lt_one
  zero_add h := by rwa [zero_add]
  add := add_pos
  mul := mul_pos
  div := div_pos

theorem carry_pos_iff : rules.Carry (0 < ·) (fun _ => True) ↔ rules.IsPositive := by
  simp [Carry, IsPositive]

theorem IsPositive.eliminateUnary (hpos : rules.IsPositive) : rules.eliminateUnary.IsPositive :=
  carry_pos_iff.mp (Carry.eliminateUnary kept_pos (carry_pos_iff.mpr hpos))

/-- Rules with positive weights have positive weights in normal form. -/
theorem IsPositive.normalForm (hpos : rules.IsPositive) : rules.normalForm.IsPositive :=
  carry_pos_iff.mp (Carry.normalForm kept_pos (carry_pos_iff.mpr hpos))

end Constituency.Ruleset
