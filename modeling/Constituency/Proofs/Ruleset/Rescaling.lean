import Constituency.Proofs.Grammar.Reordering
import Constituency.Proofs.NormalForm.Grammars
import Constituency.Proofs.Ruleset.Merging
import Constituency.Proofs.Weighted.Spreads

/-!
# Counts that become probabilities

Normalizing and smoothing give every rule a new weight, which hangs on its head and its old weight
alone, and keep everything else. The weights of a head are divided by their total. So a head that
has weight gets total one (`total_shared_of_pos`), and normalizing twice is normalizing once
(`shared_shared`); with a constant added before, no head is without weight, and no rule.
-/
namespace Constituency

namespace Ruleset

variable {rules : Ruleset ℚ} {rule : Rule ℚ} {head : String} {constant : ℚ}

/-! ### New weights -/

/-- The rules with new weights, which the head and the old weight decide. -/
def reweighed (rules : Ruleset ℚ) (f : String → ℚ → ℚ) : Ruleset ℚ :=
  rules.map fun rule => { rule with weight := f rule.head rule.weight }

section Reweighed

variable {f : String → ℚ → ℚ}

theorem mem_reweighed {made : Rule ℚ} : made ∈ rules.reweighed f ↔
    ∃ rule ∈ rules, { rule with weight := f rule.head rule.weight } = made :=
  List.mem_map

theorem map_frame_reweighed : (rules.reweighed f).map Rule.frame = rules.map Rule.frame := by
  simp [reweighed, Rule.frame]

theorem filter_reweighed :
    (rules.reweighed f).filter (·.head = head) = reweighed (rules.filter (·.head = head)) f := by
  simp [reweighed, List.filter_map, Function.comp_def]

theorem weightsOf_reweighed :
    (rules.reweighed f).weightsOf head = (rules.weightsOf head).map (f head) := by
  rw [weightsOf, filter_reweighed, reweighed, weightsOf, List.map_map, List.map_map]
  refine List.map_congr_left fun rule hr => ?_
  have hhead : rule.head = head := of_decide_eq_true (List.mem_filter.mp hr).2
  simp [hhead]

/-- At the same place in both lists there is a rule and what becomes of it. -/
theorem of_mem_zip_reweighed {pair : Rule ℚ × Rule ℚ}
    (h : pair ∈ rules.zip (rules.reweighed f)) :
    pair.1 ∈ rules ∧ pair.2 = { pair.1 with weight := f pair.1.head pair.1.weight } := by
  rw [reweighed, ← List.map_prod_left_eq_zip, List.mem_map] at h
  obtain ⟨rule, hr, rfl⟩ := h
  exact ⟨hr, rfl⟩

theorem reweighed_reweighed {f' : String → ℚ → ℚ} :
    (rules.reweighed f).reweighed f' = rules.reweighed fun head weight => f' head (f head weight) := by
  simp [reweighed]

theorem reweighed_congr {f' : String → ℚ → ℚ}
    (h : ∀ rule ∈ rules, f rule.head rule.weight = f' rule.head rule.weight) :
    rules.reweighed f = rules.reweighed f' :=
  List.map_congr_left fun rule hr => by rw [h rule hr]

end Reweighed

/-! ### Counts -/

/-- Whether every rule has a head, a body, and a weight that is not negative. -/
def IsCounts (rules : Ruleset ℚ) : Prop :=
  ∀ rule ∈ rules, rule.head ≠ "" ∧ rule.body ≠ [] ∧ 0 ≤ rule.weight

instance (rules : Ruleset ℚ) : Decidable rules.IsCounts :=
  inferInstanceAs (Decidable (∀ rule ∈ rules, _))

theorem validate_counts_iff : rules.validate .counts = .ok () ↔ rules.IsCounts := by
  simp [validate_eq_ok_iff, IsCounts, WeightRange.admits, Weight.isFinite]

/-- New weights that are not negative leave counts. -/
theorem IsCounts.reweighed {f : String → ℚ → ℚ} (h : rules.IsCounts)
    (hf : ∀ rule ∈ rules, 0 ≤ f rule.head rule.weight) : (rules.reweighed f).IsCounts := by
  intro made hm
  obtain ⟨rule, hr, rfl⟩ := mem_reweighed.mp hm
  obtain ⟨hhead, hbody, -⟩ := h rule hr
  exact ⟨hhead, hbody, hf rule hr⟩

theorem IsCounts.nonneg_of_mem_weightsOf (h : rules.IsCounts) {weight : ℚ}
    (hw : weight ∈ rules.weightsOf head) : 0 ≤ weight := by
  obtain ⟨rule, hr, rfl⟩ := List.mem_map.mp hw
  exact (h rule (List.mem_filter.mp hr).1).2.2

theorem IsCounts.total_nonneg (h : rules.IsCounts) (head : String) : 0 ≤ rules.total head :=
  List.sum_nonneg fun _ hw => h.nonneg_of_mem_weightsOf hw

theorem weight_mem_weightsOf (hr : rule ∈ rules) : rule.weight ∈ rules.weightsOf rule.head :=
  List.mem_map_of_mem (List.mem_filter.mpr ⟨hr, decide_eq_true rfl⟩)

theorem IsCounts.weight_le_total (h : rules.IsCounts) (hr : rule ∈ rules) :
    rule.weight ≤ rules.total rule.head :=
  List.single_le_sum (fun _ hw => h.nonneg_of_mem_weightsOf hw) _ (weight_mem_weightsOf hr)

/-! ### Shares -/

theorem shared_eq (rules : Ruleset ℚ) :
    rules.shared = rules.reweighed fun head => share (rules.total head) := by
  simp only [shared, reweighed, getD_totals, Weight.sum_eq, total]

theorem share_of_pos {total : ℚ} (h : 0 < total) : share total = (· / total) :=
  funext fun _ => if_pos h

theorem share_of_not_pos {total : ℚ} (h : ¬ 0 < total) : share total = id :=
  funext fun _ => if_neg h

theorem total_reweighed_div {f : String → ℚ → ℚ} {divisor : ℚ} (h : f head = (· / divisor)) :
    (rules.reweighed f).total head = rules.total head / divisor := by
  rw [total, weightsOf_reweighed, h, total]
  simp only [div_eq_mul_inv]
  rw [List.sum_map_mul_right, List.map_id']

/-- A head that has weight gets total one. -/
theorem total_shared_of_pos (h : 0 < rules.total head) : rules.shared.total head = 1 := by
  rw [shared_eq, total_reweighed_div (share_of_pos h), div_self h.ne']

/-- A head without weight keeps its rules. -/
theorem filter_shared_of_not_pos (h : ¬ 0 < rules.total head) :
    rules.shared.filter (·.head = head) = rules.filter (·.head = head) := by
  rw [shared_eq, filter_reweighed]
  refine (List.map_congr_left fun rule hr => ?_).trans (List.map_id _)
  obtain rfl : rule.head = head := of_decide_eq_true (List.mem_filter.mp hr).2
  simp [share_of_not_pos h]

theorem total_shared (rules : Ruleset ℚ) (head : String) :
    rules.shared.total head = if 0 < rules.total head then 1 else rules.total head := by
  split
  · rename_i h
    exact total_shared_of_pos h
  · rename_i h
    rw [total, weightsOf, filter_shared_of_not_pos h]
    rfl

/-- Sharing twice is sharing once: a share of one is the weight itself. -/
theorem shared_shared (rules : Ruleset ℚ) : rules.shared.shared = rules.shared := by
  rw [shared_eq rules.shared]
  simp only [total_shared]
  rw [shared_eq rules, reweighed_reweighed]
  refine reweighed_congr fun rule _ => ?_
  by_cases h : 0 < rules.total rule.head
  · simp [h, share_of_pos]
  · simp [h, share_of_not_pos]

theorem IsCounts.share_nonneg (h : rules.IsCounts) (hr : rule ∈ rules) :
    0 ≤ share (rules.total rule.head) rule.weight := by
  rw [share]
  split
  · exact div_nonneg (h rule hr).2.2 (h.total_nonneg rule.head)
  · exact (h rule hr).2.2

theorem IsCounts.share_le_one (h : rules.IsCounts) (hr : rule ∈ rules) :
    share (rules.total rule.head) rule.weight ≤ 1 := by
  have hle := h.weight_le_total hr
  rw [share]
  split
  · rename_i hpos
    exact (div_le_one hpos).mpr hle
  · rename_i hpos
    linarith

/-! ### Normalizing -/

theorem normalize_eq_ok_iff {made : Ruleset ℚ} :
    rules.normalize = .ok made ↔ rules.IsCounts ∧ made = rules.shared := by
  rw [normalize, ← validate_counts_iff]
  cases rules.validate .counts with
  | error e => simp [bind, Except.bind]
  | ok u => simp [bind, Except.bind, pure, Except.pure, eq_comm]

/-- What normalizing makes of rules. -/
structure Normalizes (rules made : Ruleset ℚ) : Prop where
  /-- All but the weights stays, in its order. -/
  frames : made.map Rule.frame = rules.map Rule.frame
  /-- A head that has weight gets total one. -/
  total_eq_one : ∀ head, 0 < rules.total head → made.total head = 1
  /-- Two weights of one head keep their ratio. -/
  ratios : ∀ a ∈ rules.zip made, ∀ b ∈ rules.zip made, a.1.head = b.1.head →
    a.2.weight / b.2.weight = a.1.weight / b.1.weight
  /-- A head without weight keeps its rules. -/
  unchanged : ∀ head, rules.total head = 0 →
    made.filter (·.head = head) = rules.filter (·.head = head)
  /-- Normalizing again changes nothing. -/
  again : made.normalize = .ok made

theorem IsCounts.shared (h : rules.IsCounts) : rules.shared.IsCounts := by
  rw [shared_eq]
  exact h.reweighed fun rule hr => h.share_nonneg hr

theorem IsCounts.normalizes (h : rules.IsCounts) : rules.Normalizes rules.shared where
  frames := by rw [shared_eq, map_frame_reweighed]
  total_eq_one _ := total_shared_of_pos
  ratios := by
    rw [shared_eq]
    intro a ha b hb hhead
    obtain ⟨-, ha⟩ := of_mem_zip_reweighed ha
    obtain ⟨-, hb⟩ := of_mem_zip_reweighed hb
    rw [ha, hb, hhead]
    by_cases hpos : 0 < rules.total b.1.head
    · simp only [share_of_pos hpos]
      exact div_div_div_cancel_right₀ hpos.ne' _ _
    · simp [share_of_not_pos hpos]
  unchanged _ hzero := filter_shared_of_not_pos hzero.not_gt
  again := normalize_eq_ok_iff.mpr ⟨h.shared, (shared_shared rules).symm⟩

/-! ### Smoothing -/

theorem raised_eq (rules : Ruleset ℚ) (constant : ℚ) :
    rules.raised constant = rules.reweighed fun _ weight => weight + constant := rfl

theorem IsCounts.raised (h : rules.IsCounts) (hconstant : 0 ≤ constant) :
    (rules.raised constant).IsCounts := by
  rw [raised_eq]
  exact h.reweighed fun rule hr => add_nonneg (h rule hr).2.2 hconstant

theorem smooth_eq_ok_iff {made : Ruleset ℚ} :
    rules.smooth constant = .ok made ↔
      0 < constant ∧ rules.IsCounts ∧ made = (rules.raised constant).shared := by
  rw [smooth, ← validate_counts_iff]
  by_cases hpos : 0 < constant
  · cases hvalid : rules.validate .counts with
    | error e => simp [hpos, Weight.isFinite, bind, Except.bind]
    | ok u =>
      have hraised : (rules.raised constant).IsCounts :=
        (validate_counts_iff.mp hvalid).raised hpos.le
      simp [hpos, Weight.isFinite, bind, Except.bind, normalize_eq_ok_iff, hraised]
  · simp [hpos, bind, Except.bind, throw, throwThe, MonadExceptOf.throw]

/-- With a constant added, every head that has a rule has weight. -/
theorem IsCounts.total_raised_pos (h : rules.IsCounts) (hconstant : 0 < constant)
    (hr : rule ∈ rules) : 0 < (rules.raised constant).total rule.head := by
  have hmem : { rule with weight := rule.weight + constant } ∈ rules.raised constant :=
    List.mem_map_of_mem hr
  have hle := (h.raised hconstant.le).weight_le_total hmem
  have hnonneg := (h rule hr).2.2
  dsimp only at hle
  linarith

/-- What smoothing makes of rules. -/
structure Smooths (rules made : Ruleset ℚ) : Prop where
  /-- All but the weights stays, in its order. -/
  frames : made.map Rule.frame = rules.map Rule.frame
  /-- Every weight is a probability that is not zero. -/
  positive : ∀ rule ∈ made, 0 < rule.weight ∧ rule.weight ≤ 1
  /-- Every head gets total one. -/
  total_eq_one : ∀ rule ∈ made, made.total rule.head = 1
  /-- Two weights of one head keep their order. -/
  ordered : ∀ a ∈ rules.zip made, ∀ b ∈ rules.zip made, a.1.head = b.1.head →
    (a.1.weight ≤ b.1.weight ↔ a.2.weight ≤ b.2.weight)

/-- All of smoothing in one step. -/
theorem shared_raised_eq (rules : Ruleset ℚ) (constant : ℚ) :
    (rules.raised constant).shared = rules.reweighed fun head weight =>
      share ((rules.raised constant).total head) (weight + constant) := by
  rw [shared_eq, raised_eq, reweighed_reweighed]

theorem IsCounts.smooths (h : rules.IsCounts) (hconstant : 0 < constant) :
    rules.Smooths (rules.raised constant).shared := by
  have htotal : ∀ rule ∈ rules, 0 < (rules.raised constant).total rule.head :=
    fun rule hr => h.total_raised_pos hconstant hr
  rw [shared_raised_eq]
  refine ⟨map_frame_reweighed, ?positive, ?total, ?ordered⟩
  case positive =>
    intro made hm
    obtain ⟨rule, hr, rfl⟩ := mem_reweighed.mp hm
    have hmem : { rule with weight := rule.weight + constant } ∈ rules.raised constant :=
      List.mem_map_of_mem hr
    have hsum : 0 < rule.weight + constant := add_pos_of_nonneg_of_pos (h rule hr).2.2 hconstant
    refine ⟨?_, (h.raised hconstant.le).share_le_one hmem⟩
    simp only [share_of_pos (htotal rule hr)]
    exact div_pos hsum (htotal rule hr)
  case total =>
    intro made hm
    obtain ⟨rule, hr, rfl⟩ := mem_reweighed.mp hm
    rw [← shared_raised_eq]
    exact total_shared_of_pos (htotal rule hr)
  case ordered =>
    intro a ha b hb hhead
    obtain ⟨-, ha⟩ := of_mem_zip_reweighed ha
    obtain ⟨hmem, hb⟩ := of_mem_zip_reweighed hb
    rw [ha, hb, hhead]
    simp only [share_of_pos (htotal b.1 hmem)]
    rw [div_le_div_iff_of_pos_right (htotal b.1 hmem), add_le_add_iff_right]

/-! ### Grammars -/

/-- Rules with probabilities are what a grammar accepts. -/
theorem IsCounts.fault?_probabilities (h : rules.IsCounts)
    (hone : ∀ rule ∈ rules, rule.weight ≤ 1) : rules.fault? .probabilities = none := by
  refine fault?_eq_none_iff.mpr fun rule hr => Rule.fault?_eq_none_iff.mpr ?_
  obtain ⟨hhead, hbody, hnonneg⟩ := h rule hr
  refine ⟨hhead, hbody, decide_eq_true ⟨hnonneg, (hone rule hr).trans ?_⟩⟩
  simp [Weight.tolerance]

end Ruleset

namespace Ruleset

variable {α : Type}

/-- The groups of the heads, each with the rules that it holds. -/
theorem mem_toList_byHead {rules : Ruleset α} {head : String} {group : Ruleset α} :
    (head, group) ∈ rules.byHead.toList ↔
      (∃ rule ∈ rules, rule.head = head) ∧ group = rules.filter (·.head = head) := by
  have hfilter : rules.byHead.getD head [] = rules.filter (·.head = head) := by
    simp [byHead, getD_groupBy]
  rw [Std.TreeMap.mem_toList_iff_getElem?_eq_some, ← mem_keys_byHead, Std.TreeMap.mem_keys,
    ← hfilter, Std.TreeMap.getD_eq_getD_getElem?, Std.TreeMap.mem_iff_isSome_getElem?]
  cases rules.byHead[head]? <;> simp [eq_comm]

/-- Whether all entries of a map have a property can be read off the list of them. -/
theorem all_eq_all_toList {β : Type} (map : Std.TreeMap String β) (p : String → β → Bool) :
    map.all p = map.toList.all fun entry => p entry.1 entry.2 := by
  change map.inner.inner.all p = (Std.DTreeMap.Internal.Impl.Const.toList map.inner.inner).all _
  rw [Std.DTreeMap.Internal.Impl.all_eq_all_toListModel,
    Std.DTreeMap.Internal.Impl.Const.toList_eq_toListModel_map, List.all_map]
  rfl

end Ruleset

namespace Grammar

/-- Rules make a grammar if there is one and none has a fault. -/
theorem exists_ofRules_iff {α : Type} [Weight α] {rules : Ruleset α} :
    (∃ g, ofRules rules = .ok g) ↔ rules ≠ [] ∧ rules.fault? .probabilities = none := by
  constructor
  · rintro ⟨g, hg⟩
    obtain ⟨rfl, -⟩ := eq_of_ofRules hg
    exact ⟨g.rules_ne_nil, g.rules_valid⟩
  · rintro ⟨hne, hvalid⟩
    obtain ⟨first, rest, rfl⟩ := List.exists_cons_of_ne_nil hne
    exact ⟨_, ofRules_cons hvalid⟩

theorem isNormalized_iff {α : Type} [Weight α] {g : Grammar α} :
    g.isNormalized = true ↔
      ∀ rule ∈ g.rules, Weight.close (Weight.sum (g.rules.weightsOf rule.head)) 1 = true := by
  have hbyHead : g.index.byHead = g.rules.byHead := by rw [g.index_eq]; rfl
  rw [isNormalized, hbyHead, Ruleset.all_eq_all_toList, List.all_eq_true]
  constructor
  · intro h rule hr
    exact h (rule.head, _) (Ruleset.mem_toList_byHead.mpr ⟨⟨rule, hr, rfl⟩, rfl⟩)
  · rintro h ⟨head, group⟩ hentry
    obtain ⟨⟨rule, hr, rfl⟩, rfl⟩ := Ruleset.mem_toList_byHead.mp hentry
    exact h rule hr

theorem ofCounts_eq_ok_iff {rules : Ruleset ℚ} {g : Grammar ℚ} :
    ofCounts rules = .ok g ↔ rules.IsCounts ∧ ofRules rules.shared = .ok g := by
  rw [ofCounts]
  cases hmade : rules.normalize with
  | error e =>
    have hnot : ¬ rules.IsCounts := fun h => by
      simp [Ruleset.normalize_eq_ok_iff.mpr ⟨h, rfl⟩] at hmade
    simp [bind, Except.bind, hnot]
  | ok made =>
    obtain ⟨hcounts, rfl⟩ := Ruleset.normalize_eq_ok_iff.mp hmade
    simp [bind, Except.bind, hcounts]

/-- A total is close to one if it is one, and not if it is zero. -/
theorem close_total_shared_iff {rules : Ruleset ℚ} (h : rules.IsCounts) (head : String) :
    Weight.close (rules.shared.total head) 1 = true ↔ rules.total head ≠ 0 := by
  rw [Ruleset.total_shared]
  rcases (h.total_nonneg head).eq_or_lt with hzero | hpos
  · simp [← hzero, Weight.close, Weight.tolerance]
    norm_num
  · simp [hpos, hpos.ne', Weight.close, Weight.tolerance]

theorem isNormalized_iff_of_ofCounts {rules : Ruleset ℚ} {g : Grammar ℚ}
    (hg : ofCounts rules = .ok g) :
    g.isNormalized = true ↔ ∀ rule ∈ rules, rules.total rule.head ≠ 0 := by
  obtain ⟨hcounts, hof⟩ := ofCounts_eq_ok_iff.mp hg
  obtain ⟨hrules, -⟩ := eq_of_ofRules hof
  have hhead : ∀ P : String → Prop, (∀ rule ∈ rules.shared, P rule.head) ↔
      ∀ rule ∈ rules, P rule.head := fun P => by simp [Ruleset.shared]
  simp only [isNormalized_iff, hrules, Weight.sum_eq]
  rw [← hhead fun head => rules.total head ≠ 0]
  simp only [← close_total_shared_iff hcounts]
  rfl

end Grammar

namespace Ruleset

/-- Exactly the counts can be normalized. Then all heads with weight get total one with the ratios
that they had, and nothing else changes, nor does it when the rules are normalized again. Counts
also make a grammar, unless there are none, and it is normalized if every head has weight. -/
theorem normalize_counts (rules : Ruleset ℚ) :
    ((∃ made, rules.normalize = .ok made) ↔ rules.IsCounts) ∧
    (∀ made, rules.normalize = .ok made → rules.Normalizes made) ∧
    ((∃ g, Grammar.ofCounts rules = .ok g) ↔ rules ≠ [] ∧ rules.IsCounts) ∧
    ∀ g, Grammar.ofCounts rules = .ok g →
      (g.isNormalized = true ↔ ∀ rule ∈ rules, rules.total rule.head ≠ 0) := by
  refine ⟨?_, ?_, ?_, fun g hg => Grammar.isNormalized_iff_of_ofCounts hg⟩
  · simp [normalize_eq_ok_iff]
  · intro made hmade
    obtain ⟨hcounts, rfl⟩ := normalize_eq_ok_iff.mp hmade
    exact hcounts.normalizes
  · simp only [Grammar.ofCounts_eq_ok_iff, exists_and_left, Grammar.exists_ofRules_iff]
    have hnil : rules.shared ≠ [] ↔ rules ≠ [] := by simp [shared]
    rw [hnil]
    constructor
    · rintro ⟨hcounts, hne, -⟩
      exact ⟨hne, hcounts⟩
    · rintro ⟨hne, hcounts⟩
      refine ⟨hcounts, hne, hcounts.shared.fault?_probabilities fun made hm => ?_⟩
      rw [shared_eq] at hm
      obtain ⟨rule, hr, rfl⟩ := mem_reweighed.mp hm
      exact hcounts.share_le_one hr

/-- The rules of three heads in turn; those of one head weigh nothing. -/
def interleavedCounts : Ruleset ℚ :=
  [.binary "S" "A" "B" 3, .lexical "A" "x" 2, .unary "S" "A" 1, .lexical "B" "y" 0,
    .lexical "A" "z" 6]

/-- A head without weight keeps its rules, and keeps the grammar from being normalized. -/
theorem normalize_counts_interleaved :
    (∃ made, interleavedCounts.normalize = .ok made ∧ interleavedCounts.Normalizes made) ∧
      ∃ g, Grammar.ofCounts interleavedCounts = .ok g ∧ ¬ g.isNormalized = true := by
  obtain ⟨hok, hmakes, hgrammar, hnormalized⟩ := normalize_counts interleavedCounts
  have hcounts : interleavedCounts.IsCounts := by decide +kernel
  obtain ⟨made, hmade⟩ := hok.mpr hcounts
  obtain ⟨g, hg⟩ := hgrammar.mpr ⟨List.cons_ne_nil _ _, hcounts⟩
  refine ⟨⟨made, hmade, hmakes made hmade⟩, g, hg, fun h => ?_⟩
  have htotal : interleavedCounts.total "B" ≠ 0 :=
    (hnormalized g hg).mp h (.lexical "B" "y" 0) (by decide +kernel)
  exact absurd htotal (by decide +kernel)

/-- Exactly the counts can be smoothed, with a constant above zero. Then every weight is positive and
every head has total one, in the order that the weights of a head had; so the rules can be brought
to normal form, and make a grammar unless there are none. -/
theorem smooth_counts (rules : Ruleset ℚ) (constant : ℚ) :
    ((∃ made, rules.smooth constant = .ok made) ↔ 0 < constant ∧ rules.IsCounts) ∧
    ∀ made, rules.smooth constant = .ok made →
      rules.Smooths made ∧
      made.validate .positiveProbabilities = .ok () ∧
      (∃ normal, made.toNormalForm = .ok normal) ∧
      (made ≠ [] → ∃ g, Grammar.ofRules made = .ok g) := by
  refine ⟨by simp [smooth_eq_ok_iff], fun made hmade => ?_⟩
  obtain ⟨hconstant, hcounts, rfl⟩ := smooth_eq_ok_iff.mp hmade
  have hsmooths := hcounts.smooths hconstant
  have hshared := (hcounts.raised hconstant.le).shared
  have hvalid : (rules.raised constant).shared.validate .positiveProbabilities = .ok () := by
    refine validate_positiveProbabilities_iff.mpr fun rule hr => ?_
    obtain ⟨hpos, hone⟩ := hsmooths.positive rule hr
    refine ⟨(hshared rule hr).1, (hshared rule hr).2.1, hpos, hone.trans ?_⟩
    simp [Weight.tolerance]
  refine ⟨hsmooths, hvalid, ⟨_, toNormalForm_eq_ok_iff.mpr ⟨hvalid, rfl⟩⟩, fun hne => ?_⟩
  exact Grammar.exists_ofRules_iff.mpr
    ⟨hne, hshared.fault?_probabilities fun rule hr => (hsmooths.positive rule hr).2⟩

/-- A small constant leaves no head without weight, and the rules can be brought to normal form. -/
theorem smooth_counts_interleaved :
    ∃ made, interleavedCounts.smooth (1 / 1000) = .ok made ∧ interleavedCounts.Smooths made ∧
      ∃ normal, made.toNormalForm = .ok normal := by
  obtain ⟨hok, hmakes⟩ := smooth_counts interleavedCounts (1 / 1000)
  obtain ⟨made, hmade⟩ := hok.mpr ⟨by norm_num, by decide +kernel⟩
  obtain ⟨hsmooths, -, hnormal, -⟩ := hmakes made hmade
  exact ⟨made, hmade, hsmooths, hnormal⟩

end Ruleset

end Constituency
