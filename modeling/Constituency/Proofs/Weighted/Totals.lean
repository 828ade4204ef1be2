import Constituency.Proofs.Grammar.Reordering
import Constituency.Proofs.Language.Preservation
import Constituency.Proofs.NormalForm.Grammars
import Constituency.Proofs.NormalForm.SyntheticLabels
import Constituency.Proofs.Weighted.Preservation

/-!
# The totals of labels in normal form

The labels that conversion makes up get rules with total one, and every other label has the total
that elimination of unary rules leaves to it (`total_normalForm`). What is left is never more than
before: at each label of a chain there is at most the weight that has come to it, whatever cycles
the chain avoids. Without cycles nothing is lost, if every chain can be followed to an end.
-/
namespace Constituency

namespace Ruleset

variable {rules : Ruleset ℚ} {label : String}

theorem total_eq_zero (hlabel : ∀ body, ¬ rules.Has label body) : rules.total label = 0 := by
  rw [total_eq_mass, mass_bodiesAt_eq_zero hlabel]

/-- A bound on the totals of all heads is one for all labels. -/
theorem total_le_one (h : ∀ rule ∈ rules, rules.total rule.head ≤ 1) (label : String) :
    rules.total label ≤ 1 := by
  by_cases hlabel : ∃ body, rules.Has label body
  · obtain ⟨body, rule, hr, rfl, -⟩ := hlabel
    exact h rule hr
  · rw [total_eq_zero fun body hbody => hlabel ⟨body, hbody⟩]
    exact zero_le_one

/-- A rule has a part of the total of its head. -/
theorem IsPositive.weight_le_total (hpos : rules.IsPositive) {rule : Rule ℚ} (hr : rule ∈ rules) :
    rule.weight ≤ rules.total rule.head := by
  refine List.single_le_sum (fun weight hw => ?_) _ (List.mem_map_of_mem ?_)
  · obtain ⟨other, ho, rfl⟩ := List.mem_map.mp hw
    exact (hpos other (List.mem_filter.mp ho).1).le
  · exact List.mem_filter.mpr ⟨hr, decide_eq_true rfl⟩

/-! ### Chains make up no weight -/

/-- The rules that chains go on with have no more than all rules. -/
theorem IsPositive.total_nonLoops_le (hpos : rules.IsPositive) (label : String) :
    rules.nonLoops.total label ≤ rules.total label := by
  have hsub : (rules.nonLoops.filter (·.head = label)).Sublist
      (rules.filter (·.head = label)) := List.filter_sublist.filter _
  refine (hsub.map _).sum_le_sum fun weight hw => ?_
  obtain ⟨rule, hr, rfl⟩ := List.mem_map.mp hw
  exact (hpos rule (List.mem_filter.mp hr).1).le

/-- The ends of the chains through a label weigh no more than what comes to it, although chains that
come back to a label are cut off. -/
theorem IsPositive.endSum_expansions_le (hpos : rules.IsPositive)
    (hle : ∀ label, rules.total label ≤ 1) {available : List String} {weight : ℚ}
    (hweight : 0 ≤ weight) :
    endSum (fun _ => 1) (expansions rules.goingOn available label weight) ≤ weight := by
  fun_induction expansions rules.goingOn available label weight with
  | case1 available label weight hmem ih =>
    rw [endSum_flatMap]
    have htotal : rules.nonLoops.total label ≤ 1 :=
      (hpos.total_nonLoops_le label).trans (hle label)
    -- Every rule hands on its share of the weight, and the shares are no more than the weight.
    refine (List.sum_le_sum (g := fun rule => weight * rule.weight) fun rule hr => ?_).trans ?_
    · have hproduct : 0 ≤ weight * rule.weight :=
        mul_nonneg hweight (hpos rule (mem_goingOn.mp hr).1).le
      cases hc : rule.unaryChild? with
      | some child => exact ih rule child hproduct
      | none => simp [endSum]
    · rw [List.sum_map_mul_left]
      exact mul_le_of_le_one_right hweight htotal
  | case2 available label weight hmem => exact hweight

/-- What takes the place of a rule has no more than its weight. -/
theorem IsPositive.mass_withoutUnary_le (hpos : rules.IsPositive)
    (hle : ∀ label, rules.total label ≤ 1) {rule : Rule ℚ} (hr : rule ∈ rules) (label : String) :
    (withoutUnary rules.goingOn rules.chainLabels rule).mass (bodiesAt (fun _ => 1) label) ≤
      rule.weight * bodiesAt (fun _ => 1) label rule.head rule.body := by
  cases hc : rule.unaryChild? with
  | none => simp [withoutUnary, hc]
  | some child =>
    rw [mass_withoutUnary_of_unary hc, bodiesAt, mul_ite, mul_zero, mul_one]
    split
    · exact hpos.endSum_expansions_le hle (hpos rule hr).le
    · exact le_refl _

/-- Eliminating unary rules makes up no weight. -/
theorem IsPositive.total_eliminateUnary_le (hpos : rules.IsPositive)
    (hle : ∀ label, rules.total label ≤ 1) (label : String) :
    rules.eliminateUnary.total label ≤ rules.total label := by
  rw [total_eq_mass, eliminateUnary_eq, mass_merge, mass_flatMap]
  calc (rules.nonLoops.map fun rule => (withoutUnary rules.goingOn rules.chainLabels rule).mass
        (bodiesAt (fun _ => 1) label)).sum
      ≤ rules.nonLoops.mass (bodiesAt (fun _ => 1) label) :=
        List.sum_le_sum fun rule hr =>
          hpos.mass_withoutUnary_le hle (List.mem_filter.mp hr).1 label
    _ = rules.nonLoops.total label := (total_eq_mass _ label).symm
    _ ≤ rules.total label := hpos.total_nonLoops_le label

/-! ### Chains without cycles lose none -/

/-- What a body weighs: a label alone has the total of its rules, every other body has one. -/
def bodyTotal (rules : Ruleset ℚ) : List Symbol → ℚ
  | [.nonterminal label] => rules.total label
  | _ => 1

theorem bodyTotal_eq_one {body : List Symbol} (hbody : ∀ child, body ≠ [.nonterminal child]) :
    rules.bodyTotal body = 1 := by
  unfold bodyTotal
  split
  · exact absurd rfl (hbody _)
  · rfl

/-- Whether the rules of each label have total one, and each unary child has rules. -/
structure Complete (rules : Ruleset ℚ) : Prop where
  total_eq_one : ∀ rule ∈ rules, rules.total rule.head = 1
  exists_has : ∀ label child, rules.Steps label child → ∃ body, rules.Has child body

theorem Complete.bodyTotal_eq_one (h : rules.Complete) {rule : Rule ℚ} (hr : rule ∈ rules) :
    rules.bodyTotal rule.body = 1 := by
  cases hc : rule.unaryChild? with
  | none => exact Ruleset.bodyTotal_eq_one (Rule.unaryChild?_eq_none_iff.mp hc)
  | some child =>
    obtain ⟨body, other, ho, rfl, -⟩ := h.exists_has _ _ (steps_of_mem hr hc)
    rw [Rule.unaryChild?_eq_some_iff.mp hc]
    exact h.total_eq_one other ho

theorem Complete.total_eq (h : rules.Complete) (label : String) :
    rules.total label = rules.mass (bodiesAt rules.bodyTotal label) := by
  rw [total_eq_mass]
  refine mass_congr fun rule hr => ?_
  rw [bodiesAt, bodiesAt, h.bodyTotal_eq_one hr]

/-- Eliminating unary rules keeps the totals if there are no cycles. -/
theorem Complete.total_eliminateUnary (h : rules.Complete) (hacyclic : rules.Acyclic)
    (label : String) : rules.eliminateUnary.total label = rules.total label := by
  -- Once unary rules are gone, every body weighs one; before, only complete rules make it so.
  have hbalanced : rules.Balanced rules.bodyTotal := h.total_eq
  rw [h.total_eq, ← hbalanced.mass_eliminateUnary hacyclic, total_eq_mass]
  refine mass_congr fun rule hr => ?_
  obtain ⟨-, -, -, hbody⟩ := has_eliminateUnary_iff.mp ⟨rule, hr, rfl, rfl⟩
  rw [bodiesAt, bodiesAt, Ruleset.bodyTotal_eq_one hbody]

/-! ### The labels made up -/

theorem stationTotal_pos (hpos : rules.IsPositive) (hlabel : label ∈ rules.tailLabels) :
    0 < rules.stationTotal label := by
  obtain ⟨rule, hr, s, hs, n, hn, rfl⟩ := mem_tailLabels.mp hlabel
  have hmem : (rule.weight, n) ∈ rules.weightedStations :=
    mem_weightedStations.mpr ⟨rule, hr, rfl, Station.mem_line_iff.mpr (.inr ⟨s, hs, hn⟩)⟩
  have hsum : rules.stationTotal n.head =
      keySum rules.weightedStations (fun p => p.2.head) (fun p => p.1) n.head := by
    simp only [stationTotal, spread, keySum, mul_ite, mul_one, mul_zero]
  rw [hsum]
  exact keySum_pos (fun _ hp => hpos.of_mem_weightedStations hp) hmem

/-- Splitting rules gives tails the total one, and leaves the other totals as they are. -/
theorem total_binarize (htails : rules.TailsNew) (hpos : rules.IsPositive) (label : String) :
    rules.binarize.total label =
      if label ∈ rules.tailLabels then 1 else rules.total label := by
  have hshare :
      rules.binarize.total label = rules.stationShare label * rules.stationTotal label := by
    rw [total_eq_mass, mass_binarize htails, stationTotal, ← spread_mul_left]
    refine spread_congr fun rule _ s _ => ?_
    rw [bodiesAt]
    by_cases hhead : s.head = label <;> simp [hhead]
  rw [hshare, stationShare]
  split
  · rename_i hlabel
    exact one_div_mul_cancel (stationTotal_pos hpos hlabel).ne'
  · rename_i hlabel
    rw [one_mul, stationTotal, spread_of_not_tail hlabel fun s hs => if_neg hs, total_eq_mass]
    rfl

theorem total_units (label : String) :
    rules.units.total label = if label ∈ rules.units.map (·.head) then 1 else 0 := by
  split
  · rename_i hmem
    obtain ⟨made, hm, rfl⟩ := List.mem_map.mp hmem
    obtain ⟨rule, -, hr⟩ := List.mem_flatMap.mp (mem_of_mem_firsts hm)
    obtain ⟨-, word, -, rfl⟩ := mem_unitsOf.mp hr
    rw [total_eq_mass]
    exact (mass_of_pairwise (pairwise_firsts _) hm fun _ => 1).trans (one_mul 1)
  · rename_i hmem
    refine total_eq_zero fun body hbody => ?_
    obtain ⟨made, hm, rfl, -⟩ := hbody
    exact hmem (List.mem_map_of_mem hm)

/-- Extracting words adds the rules of unit labels. -/
theorem total_extractTerminals (label : String) :
    rules.extractTerminals.total label =
      rules.total label + if label ∈ rules.units.map (·.head) then 1 else 0 := by
  have hlifted : total (rules.map Rule.lifted) label = rules.total label := by
    rw [total_eq_mass, total_eq_mass, mass, mass, List.map_map]
    refine congrArg List.sum (List.map_congr_left fun rule _ => ?_)
    rw [Function.comp_apply, weight_lifted, bodiesAt, bodiesAt, head_lifted]
  rw [← total_units, ← hlifted, total_eq_mass, total_eq_mass, total_eq_mass, ← mass_append]
  rfl

/-- The heads of rules are spelled, and no bar or underscore is in them. -/
def PlainHeads (rules : Ruleset ℚ) : Prop :=
  ∀ rule ∈ rules, rule.head ≠ "" ∧ IsPlainName rule.head

theorem PlainHeads.tailsNew (h : rules.PlainHeads) : rules.TailsNew :=
  fun rule hr => not_mem_tailLabels (h rule hr).2

theorem PlainHeads.eliminateUnary (h : rules.PlainHeads) : rules.eliminateUnary.PlainHeads := by
  intro rule hr
  obtain ⟨body, other, ho, hhead, -⟩ :=
    (has_eliminateUnary_iff.mp ⟨rule, hr, rfl, rfl⟩).exists_has
  exact hhead ▸ h other ho

/-- What a label begins with is kept when it is made longer. -/
theorem PlainHeads.head_binarize (h : rules.PlainHeads) {head : String} {body : List Symbol}
    (hrule : rules.binarize.Has head body) : head ≠ "" ∧ ∀ word, head ≠ unitLabel word := by
  obtain ⟨rule, hr, s, hs, rfl, -⟩ := has_binarize_iff.mp hrule
  obtain ⟨hne, hplain⟩ := h rule hr
  obtain ⟨rest, hrest⟩ := Station.prefix_of_mem_line hs
  obtain ⟨c, cs, hcons⟩ := List.exists_cons_of_ne_nil
    (fun hnil => hne (String.toList_eq_nil_iff.mp hnil))
  rw [hcons, List.cons_append] at hrest
  constructor
  · intro hempty
    simp [hempty] at hrest
  · intro word hunit
    rw [hunit, toList_unitLabel, List.cons.injEq] at hrest
    exact hplain.2 (hcons ▸ hrest.1 ▸ List.mem_cons_self)

/-- The labels that conversion makes up. -/
def madeUp (rules : Ruleset ℚ) : List String :=
  rules.eliminateUnary.tailLabels ++ rules.eliminateUnary.binarize.units.map (·.head)

/-- In normal form the labels made up have the total one, and all others the total that they have
without unary rules. -/
theorem PlainHeads.total_normalForm (h : rules.PlainHeads) (hpos : rules.IsPositive)
    (label : String) : rules.normalForm.total label =
      if label ∈ rules.madeUp then 1 else rules.eliminateUnary.total label := by
  rw [normalForm, total_extractTerminals]
  by_cases hunit : label ∈ rules.eliminateUnary.binarize.units.map (·.head)
  · obtain ⟨word, -, rfl⟩ := mem_heads_units.mp hunit
    have hnone : ∀ body, ¬ rules.eliminateUnary.binarize.Has (unitLabel word) body :=
      fun body hbody => (h.eliminateUnary.head_binarize hbody).2 word rfl
    have hmade : unitLabel word ∈ rules.madeUp := List.mem_append_right _ hunit
    rw [total_eq_zero hnone, if_pos hunit, if_pos hmade, zero_add]
  · have hmem : label ∈ rules.madeUp ↔ label ∈ rules.eliminateUnary.tailLabels := by
      simp only [madeUp, List.mem_append, hunit, or_false]
    rw [total_binarize h.eliminateUnary.tailsNew hpos.eliminateUnary, if_neg hunit, add_zero]
    simp only [hmem]

theorem PlainHeads.total_normalForm_le (h : rules.PlainHeads) (hpos : rules.IsPositive)
    (hle : ∀ label, rules.total label ≤ 1) (label : String) :
    rules.normalForm.total label ≤ 1 := by
  rw [h.total_normalForm hpos]
  split
  · exact le_refl 1
  · exact (hpos.total_eliminateUnary_le hle label).trans (hle label)

/-- Every rule in normal form has a label made up or one that had rules before. -/
theorem mem_heads_of_normalForm {head : String} {body : List Symbol}
    (hrule : rules.normalForm.Has head body) :
    head ∈ rules.madeUp ∨ ∃ other, rules.Has head other := by
  rcases has_extractTerminals_iff.mp hrule with ⟨rule, hr, rfl, -⟩ | ⟨word, hword, rfl, -⟩
  · obtain ⟨long, hl, s, hs, hhead, -⟩ := has_binarize_iff.mp ⟨rule, hr, rfl, rfl⟩
    rcases Station.mem_line_iff.mp hs with rfl | ⟨p, hp, hnext⟩
    · exact .inr (hhead ▸ (has_eliminateUnary_iff.mp ⟨long, hl, rfl, rfl⟩).exists_has)
    · exact .inl (List.mem_append_left _ (mem_tailLabels.mpr ⟨long, hl, p, hp, s, hnext, hhead⟩))
  · exact .inl (List.mem_append_right _ (mem_heads_units.mpr ⟨word, hword, rfl⟩))

/-- If all totals are one and no chain is lost, all totals are one in normal form. -/
theorem PlainHeads.total_normalForm_eq_one (h : rules.PlainHeads) (hpos : rules.IsPositive)
    (hcomplete : rules.Complete) (hacyclic : rules.Acyclic) {rule : Rule ℚ}
    (hr : rule ∈ rules.normalForm) : rules.normalForm.total rule.head = 1 := by
  rw [h.total_normalForm hpos]
  split
  · rfl
  · rename_i hmade
    obtain ⟨body, other, ho, hhead, -⟩ :=
      (mem_heads_of_normalForm ⟨rule, hr, rfl, rfl⟩).resolve_left hmade
    rw [hcomplete.total_eliminateUnary hacyclic, ← hhead, hcomplete.total_eq_one other ho]

theorem PlainHeads.head_normalForm_ne (h : rules.PlainHeads) {head : String} {body : List Symbol}
    (hrule : rules.normalForm.Has head body) : head ≠ "" := by
  rcases has_extractTerminals_iff.mp hrule with ⟨rule, hr, rfl, -⟩ | ⟨word, -, rfl, -⟩
  · exact (h.eliminateUnary.head_binarize ⟨rule, hr, rfl, rfl⟩).1
  · intro hnil
    have hlist := congrArg String.toList hnil
    rw [toList_unitLabel] at hlist
    cases hlist

/-- Rules with totals up to one have probabilities in normal form. -/
theorem PlainHeads.fault?_normalForm (h : rules.PlainHeads) (hpos : rules.IsPositive)
    (hle : ∀ label, rules.total label ≤ 1)
    (hempty : ∀ head body, rules.Has head body → body ≠ []) :
    rules.normalForm.fault? .probabilities = none := by
  refine fault?_eq_none_iff.mpr fun rule hr => Rule.fault?_eq_none_iff.mpr ?_
  have hrule : rules.normalForm.Has rule.head rule.body := ⟨rule, hr, rfl, rfl⟩
  have htolerance : (0 : ℚ) ≤ Weight.tolerance := by decide +kernel
  have hweight : rule.weight ≤ 1 :=
    (hpos.normalForm.weight_le_total hr).trans (h.total_normalForm_le hpos hle rule.head)
  refine ⟨h.head_normalForm_ne hrule, ?_, decide_eq_true ⟨(hpos.normalForm rule hr).le, ?_⟩⟩
  · rcases body_normalForm hempty hrule with ⟨word, hbody⟩ | ⟨left, right, hbody⟩ <;> simp [hbody]
  · exact hweight.trans (le_add_of_nonneg_right htolerance)

/-- A rule that is not unary has something in its place in normal form. -/
theorem normalForm_ne_nil {rule : Rule ℚ} (hr : rule ∈ rules) (hunary : rule.unaryChild? = none) :
    rules.normalForm ≠ [] := by
  have hkept : rules.eliminateUnary.Has rule.head rule.body :=
    has_eliminateUnary_iff.mpr ⟨rule.head, .refl, ⟨rule, hr, rfl, rfl⟩,
      Rule.unaryChild?_eq_none_iff.mp hunary⟩
  obtain ⟨kept, hk, -⟩ := hkept
  obtain ⟨made, hm, -⟩ : rules.eliminateUnary.binarize.Has kept.head
      (Station.linkBody ⟨kept.head, kept.body⟩) :=
    has_binarize_iff.mpr ⟨kept, hk, _, Station.mem_line_iff.mpr (.inl rfl), rfl, rfl⟩
  exact List.ne_nil_of_mem (List.mem_append_left _ (List.mem_map_of_mem hm))

end Ruleset

namespace Grammar

open Ruleset

/-- Conversion to normal form makes up no weight. A grammar with positive probabilities and plain
labels, in which the rules of no label have a total above one and not all rules are unary, has a
normal form; there no label has a total above one, and the labels made up for tails and for words
have exactly one. If all totals are one before, and unary rules have no cycles and lead to labels
with rules only, all totals are one in normal form. -/
theorem total_toNormalForm (g : Grammar ℚ) (hpos : g.rules.IsPositive)
    (hle : ∀ rule ∈ g.rules, g.rules.total rule.head ≤ 1)
    (hplain : ∀ label ∈ g.rules.nonterminals, IsPlainName label)
    (hkept : ∃ rule ∈ g.rules, rule.unaryChild? = none) :
    ∃ c, g.toNormalForm = .ok c ∧
      (∀ label, c.rules.total label ≤ 1) ∧
      (∀ label ∈ g.rules.eliminateUnary.syntheticLabels, c.rules.total label = 1) ∧
      (∀ word, g.rules.eliminateUnary.binarize.NeedsUnit word →
        c.rules.total (unitLabel word) = 1) ∧
      (g.rules.Complete → g.rules.Acyclic → ∀ rule ∈ c.rules, c.rules.total rule.head = 1) := by
  have hfault : ∀ rule ∈ g.rules, rule.head ≠ "" ∧ rule.body ≠ [] ∧
      WeightRange.probabilities.admits rule.weight = true := fun rule hr =>
    Rule.fault?_eq_none_iff.mp (fault?_eq_none_iff.mp g.rules_valid rule hr)
  have hheads : g.rules.PlainHeads := fun rule hr =>
    ⟨(hfault rule hr).1,
      hplain _ (mem_nonterminals.mpr (Has.head_mem_symbols ⟨rule, hr, rfl, rfl⟩))⟩
  have hempty : ∀ head body, g.rules.Has head body → body ≠ [] := by
    rintro head body ⟨rule, hr, rfl, rfl⟩
    exact (hfault rule hr).2.1
  have hvalid : g.rules.validate .positiveProbabilities = .ok () := by
    refine validate_positiveProbabilities_iff.mpr fun rule hr => ?_
    obtain ⟨hhead, hbody, hadmits⟩ := hfault rule hr
    exact ⟨hhead, hbody, hpos rule hr, (of_decide_eq_true hadmits).2⟩
  have htotal := total_le_one hle
  obtain ⟨rule, hr, hunary⟩ := hkept
  obtain ⟨c, hc⟩ := exists_toNormalForm hvalid (normalForm_ne_nil hr hunary)
    (hheads.fault?_normalForm hpos htotal hempty)
  obtain ⟨-, hrules⟩ := rules_of_toNormalForm hc
  have hmade : ∀ label ∈ g.rules.madeUp, c.rules.total label = 1 := by
    intro label hlabel
    rw [hrules, hheads.total_normalForm hpos, if_pos hlabel]
  refine ⟨c, hc, fun label => ?_, fun label hlabel => ?_, fun word hword => ?_, ?_⟩
  · exact hrules ▸ hheads.total_normalForm_le hpos htotal label
  · exact hmade _ (List.mem_append_left _ (mem_syntheticLabels_long.mp hlabel))
  · exact hmade _ (List.mem_append_right _ (mem_heads_units.mpr ⟨word, hword, rfl⟩))
  · intro hcomplete hacyclic
    rw [hrules]
    exact fun rule hr => hheads.total_normalForm_eq_one hpos hcomplete hacyclic hr

/-- The grammar of two languages that share a tail. -/
def sharing : Grammar ℚ where
  start := "S"
  rules := sharingRules
  index := .ofRules sharingRules
  rules_ne_nil := List.cons_ne_nil _ _
  rules_valid := by decide +kernel
  index_eq := rfl

theorem complete_sharingRules : sharingRules.Complete where
  total_eq_one := by decide +kernel
  exists_has := by
    rintro label child ⟨rule, hr, rfl, hchild⟩
    have hchildren : ∀ rule ∈ sharingRules, ∀ child ∈ rule.unaryChild?,
        ∃ other ∈ sharingRules, other.head = child := by decide +kernel
    obtain ⟨other, ho, hhead⟩ := hchildren rule hr child (Rule.unaryChild?_eq_some_iff.mpr hchild)
    exact ⟨other.body, other, ho, hhead, rfl⟩

/-- All totals stay one where no unary rules form a cycle, and one at most where some do. -/
theorem total_toNormalForm_sharing :
    (∃ c, sharing.toNormalForm = .ok c ∧ c.rules.total "S|A_and" = 1 ∧ c.rules.total "_and" = 1 ∧
      ∀ rule ∈ c.rules, c.rules.total rule.head = 1) ∧
    ∃ c, cyclic.toNormalForm = .ok c ∧ ∀ label, c.rules.total label ≤ 1 := by
  have hpos : ∀ rule ∈ sharingRules, 0 < rule.weight := by decide +kernel
  have hpos' : ∀ rule ∈ cyclicRules, 0 < rule.weight := by decide +kernel
  have hneeds : ∃ rule ∈ sharingRules.eliminateUnary.binarize,
      rule.isMixed = true ∧ .terminal "and" ∈ rule.body := by decide +kernel
  constructor
  · obtain ⟨c, hc, -, hsynthetic, hunit, hone⟩ := total_toNormalForm sharing hpos
      (by decide +kernel) (by decide +kernel) (by decide +kernel)
    exact ⟨c, hc, hsynthetic "S|A_and" (by decide +kernel), hunit "and" hneeds,
      hone complete_sharingRules acyclic_sharingRules⟩
  · obtain ⟨c, hc, hle, -⟩ := total_toNormalForm cyclic hpos'
      (by decide +kernel) (by decide +kernel) (by decide +kernel)
    exact ⟨c, hc, hle⟩

end Grammar

end Constituency
