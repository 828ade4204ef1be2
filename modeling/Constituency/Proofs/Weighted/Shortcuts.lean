import Constituency.Proofs.Chart.CycleFreedom
import Constituency.Proofs.Chart.Termination
import Constituency.Proofs.Language.Preservation
import Constituency.Proofs.Weighted.Preservation

/-!
# Direct parses and parses in normal form

A chart applies unary rules itself. With weights of one at most nothing that it makes goes round a
cycle, so the unary nodes at the top of a tree are a chain that the elimination of unary rules has
followed to its end. There one rule takes their place, the shortcut of the tree; merging can only
add to its weight, and the later steps of the conversion leave it alone. So a grammar in normal form
has a tree of the same label and span that is no less probable (`exists_tree_normalForm`), and its
chart holds one as good.
-/
namespace Constituency

namespace Tree

/-- The product of the weights of all rules. -/
def probability : Tree ℚ → ℚ
  | lexical rule _ _ => rule.weight
  | unary rule child => rule.weight * child.probability
  | binary rule left right => rule.weight * left.probability * right.probability

/-- The rule that rewrites the label of a tree to the body at the end of its spine, with the product
of the weights along the spine. -/
def shortcut : Tree ℚ → Rule ℚ
  | lexical rule _ _ => rule
  | unary rule child =>
    rule.derive rule.head child.shortcut.body (rule.weight * child.shortcut.weight)
  | binary rule _ _ => rule

@[simp] theorem head_shortcut (tree : Tree ℚ) : tree.shortcut.head = tree.label := by
  cases tree <;> rfl

variable {rules : Ruleset ℚ} {tokens : List String} {tree : Tree ℚ}

namespace Licensed

theorem probability_pos (h : tree.Licensed rules tokens) (hpos : rules.IsPositive) :
    0 < tree.probability := by
  induction tree with
  | lexical rule token position => exact hpos rule (licensed_lexical.mp h).1
  | unary rule child ih =>
    obtain ⟨⟨hr, -⟩, hchild⟩ := licensed_unary.mp h
    exact mul_pos (hpos rule hr) (ih hchild)
  | binary rule left right ihl ihr =>
    obtain ⟨⟨hr, -⟩, hleft, hright⟩ := licensed_binary.mp h
    exact mul_pos (mul_pos (hpos rule hr) (ihl hleft)) (ihr hright)

/-- The score of a tree is the logarithm of its probability. -/
theorem score_eq_log (h : tree.Licensed rules tokens) (hpos : rules.IsPositive) :
    tree.score = Real.log tree.probability := by
  have hne : ∀ {q : ℚ}, 0 < q → (q : ℝ) ≠ 0 := fun hq => by exact_mod_cast hq.ne'
  induction tree with
  | lexical rule token position => rfl
  | unary rule child ih =>
    obtain ⟨⟨hr, -⟩, hchild⟩ := licensed_unary.mp h
    rw [score, probability, ih hchild, Rat.cast_mul,
      Real.log_mul (hne (hpos rule hr)) (hne (hchild.probability_pos hpos))]
    rfl
  | binary rule left right ihl ihr =>
    obtain ⟨⟨hr, -⟩, hleft, hright⟩ := licensed_binary.mp h
    have hw := hne (hpos rule hr)
    have hl := hne (hleft.probability_pos hpos)
    rw [score, probability, ihl hleft, ihr hright, Rat.cast_mul, Rat.cast_mul,
      Real.log_mul (mul_ne_zero hw hl) (hne (hright.probability_pos hpos)), Real.log_mul hw hl]
    rfl

/-- Scores compare trees as their probabilities do. -/
theorem score_le_score_iff {rules' : Ruleset ℚ} {other : Tree ℚ} (h : tree.Licensed rules tokens)
    (hpos : rules.IsPositive) (h' : other.Licensed rules' tokens) (hpos' : rules'.IsPositive) :
    tree.score ≤ other.score ↔ tree.probability ≤ other.probability := by
  have htree : (0 : ℝ) < tree.probability := by exact_mod_cast h.probability_pos hpos
  have hother : (0 : ℝ) < other.probability := by exact_mod_cast h'.probability_pos hpos'
  rw [h.score_eq_log hpos, h'.score_eq_log hpos', ← Rat.cast_le (K := ℝ)]
  exact Real.log_le_log_iff htree hother

/-- The body of a shortcut is a word or two labels. -/
theorem body_shortcut (h : tree.Licensed rules tokens) :
    (∃ word, tree.shortcut.body = [.terminal word]) ∨
      ∃ left right, tree.shortcut.body = [.nonterminal left, .nonterminal right] := by
  induction tree with
  | lexical rule token position =>
    obtain ⟨-, -, word, hbody, -⟩ := licensed_lexical.mp h
    exact .inl ⟨word, hbody⟩
  | unary rule child ih => exact ih (licensed_unary.mp h).2
  | binary rule left right => exact .inr ⟨_, _, (licensed_binary.mp h).1.2.1⟩

end Licensed

end Tree

/-! ### Rules with no less weight -/

namespace Ruleset

variable {rules : Ruleset ℚ} {rule old : Rule ℚ}

/-- Whether a list has a rule with the head and the body of a given one, and no less weight. -/
def Outweighs (rules : Ruleset ℚ) (rule : Rule ℚ) : Prop :=
  ∃ made ∈ rules, made.head = rule.head ∧ made.body = rule.body ∧ rule.weight ≤ made.weight

theorem Outweighs.absorb (h : rules.Outweighs old) (hpos : 0 < rule.weight) :
    (absorb rules rule).Outweighs old := by
  obtain ⟨made, hm, hhead, hbody, hle⟩ := h
  induction rules with
  | nil => cases hm
  | cons first rest ih =>
    rw [Ruleset.absorb]
    split
    · rcases List.mem_cons.mp hm with rfl | hm
      · have hgrown : old.weight ≤ made.weight + rule.weight := by linarith
        exact ⟨{ made with weight := made.weight + rule.weight }, List.mem_cons_self, hhead, hbody,
          hgrown⟩
      · exact ⟨made, List.mem_cons_of_mem _ hm, hhead, hbody, hle⟩
    · rcases List.mem_cons.mp hm with rfl | hm
      · exact ⟨made, List.mem_cons_self, hhead, hbody, hle⟩
      · obtain ⟨found, hfound, h⟩ := ih hm
        exact ⟨found, List.mem_cons_of_mem _ hfound, h⟩

theorem outweighs_absorb (hpos : rules.IsPositive) (rule : Rule ℚ) :
    (absorb rules rule).Outweighs rule := by
  induction rules with
  | nil => exact ⟨rule, List.mem_cons_self, rfl, rfl, le_rfl⟩
  | cons first rest ih =>
    obtain ⟨hfirst, hrest⟩ := List.forall_mem_cons.mp hpos
    rw [absorb]
    split
    · rename_i hsame
      simp only [Rule.sameFrame, Bool.and_eq_true, decide_eq_true_eq] at hsame
      have hgrown : rule.weight ≤ first.weight + rule.weight := by linarith
      exact ⟨{ first with weight := first.weight + rule.weight }, List.mem_cons_self, hsame.1.1,
        hsame.1.2, hgrown⟩
    · obtain ⟨found, hfound, h⟩ := ih hrest
      exact ⟨found, List.mem_cons_of_mem _ hfound, h⟩

/-- Merging rules with positive weights lowers none of them. -/
theorem outweighs_merge (hpos : rules.IsPositive) (hr : rule ∈ rules) :
    rules.merge.Outweighs rule := by
  have hfold : ∀ others merged : Ruleset ℚ, others.IsPositive → merged.Outweighs rule →
      Outweighs (others.foldl Ruleset.absorb merged) rule := by
    intro others
    induction others with
    | nil => exact fun merged _ h => h
    | cons next others ih =>
      intro merged ho h
      obtain ⟨hnext, ho⟩ := List.forall_mem_cons.mp ho
      exact ih _ ho (h.absorb hnext)
  obtain ⟨before, behind, rfl⟩ := List.append_of_mem hr
  have hbefore : (merge before).IsPositive := by
    have hcarry := carry_pos_iff.mpr hpos
    exact carry_pos_iff.mp ((hcarry.of_subset (List.subset_append_left _ _)).merge kept_pos)
  have hbehind : Ruleset.IsPositive behind :=
    fun next hn => hpos next (List.mem_append_right _ (List.mem_cons_of_mem _ hn))
  rw [merge, List.foldl_append, List.foldl_cons]
  exact hfold behind _ hbehind (outweighs_absorb hbefore rule)

/-- Once unary rules are gone, rules with one word or two labels stay as they are. -/
theorem Outweighs.normalForm (h : rules.eliminateUnary.Outweighs rule)
    (hbody : (∃ word, rule.body = [.terminal word]) ∨
      ∃ left right, rule.body = [.nonterminal left, .nonterminal right]) :
    rules.normalForm.Outweighs rule := by
  obtain ⟨made, hm, hhead, hsame, hle⟩ := h
  rw [← hsame] at hbody
  have hkept : made.isLong = false ∧ made.isMixed = false := by
    rcases hbody with ⟨word, h⟩ | ⟨left, right, h⟩ <;>
      simp [Rule.isLong, Rule.isMixed, h, Symbol.isTerminal]
  have hlifted : made.lifted = made := by simp [Rule.lifted, hkept.2]
  have hsplit : made ∈ rules.eliminateUnary.binarize :=
    List.mem_append_left _ (List.mem_filter.mpr ⟨hm, by simp [hkept.1]⟩)
  exact ⟨made, List.mem_append_left _ (List.mem_map.mpr ⟨made, hsplit, hlifted⟩), hhead, hsame, hle⟩

end Ruleset

/-! ### Shortcuts in normal form -/

namespace Tree.Licensed

variable {rules : Ruleset ℚ} {tokens : List String} {tree : Tree ℚ}

theorem unaryChild?_lexical {rule : Rule ℚ} {token : String} {position : Nat}
    (h : (lexical rule token position).Licensed rules tokens) : rule.unaryChild? = none := by
  obtain ⟨-, -, word, hbody, -⟩ := licensed_lexical.mp h
  exact Rule.unaryChild?_eq_none_iff.mpr (by simp [hbody])

theorem unaryChild?_binary {rule : Rule ℚ} {left right : Tree ℚ}
    (h : (binary rule left right).Licensed rules tokens) : rule.unaryChild? = none := by
  obtain ⟨⟨-, hbody, -⟩, -⟩ := licensed_binary.mp h
  exact Rule.unaryChild?_eq_none_iff.mpr (by simp [hbody])

/-- A chain can go on with the rule at the top of a tree that goes round no cycle. -/
theorem mem_goingOn (h : tree.Licensed rules tokens) (hrounds : tree.NoRounds) :
    tree.rule ∈ rules.goingOn tree.label := by
  refine Ruleset.mem_goingOn.mpr ?_
  cases tree with
  | lexical rule token position =>
    exact ⟨(licensed_lexical.mp h).1,
      Rule.unaryChild?_eq_none_iff.mp h.unaryChild?_lexical rule.head, rfl⟩
  | unary rule child =>
    obtain ⟨⟨hr, hbody⟩, -⟩ := licensed_unary.mp h
    have hne : child.label ≠ rule.head := hrounds.label_ne (self_mem_spine child)
    exact ⟨hr, by simpa [Tree.rule, hbody] using hne, rfl⟩
  | binary rule left right =>
    exact ⟨(licensed_binary.mp h).1.1,
      Rule.unaryChild?_eq_none_iff.mp h.unaryChild?_binary rule.head, rfl⟩

/-- Chains can visit all labels of the spine. -/
theorem label_mem_chainLabels (h : tree.Licensed rules tokens) (hrounds : tree.NoRounds) :
    ∀ node ∈ tree.spine, node.label ∈ rules.chainLabels := by
  have htop : ∀ {tree : Tree ℚ}, tree.rule ∈ rules.goingOn tree.label →
      tree.label ∈ rules.chainLabels :=
    fun hgoing => Ruleset.mem_keys_byHead.mpr ⟨_, (List.mem_filter.mp hgoing).1, rfl⟩
  induction tree with
  | lexical rule token position => simpa [spine] using htop (h.mem_goingOn hrounds)
  | unary rule child ih =>
    exact List.forall_mem_cons.mpr ⟨htop (h.mem_goingOn hrounds),
      ih (licensed_unary.mp h).2 (noRounds_unary_iff.mp hrounds).2⟩
  | binary rule left right => simpa [spine] using htop (h.mem_goingOn hrounds)

/-- A chain over the labels of the spine ends with the body of the shortcut. -/
theorem mem_expansions (h : tree.Licensed rules tokens) (hrounds : tree.NoRounds)
    {available : List String} (havailable : ∀ node ∈ tree.spine, node.label ∈ available)
    (weight : ℚ) :
    (tree.shortcut.body, weight * tree.shortcut.weight) ∈
      Ruleset.expansions rules.goingOn available tree.label weight := by
  have htop := havailable tree (self_mem_spine tree)
  have hgoing := h.mem_goingOn hrounds
  induction tree generalizing available weight with
  | lexical rule token position =>
    exact Ruleset.mem_expansions_iff.mpr
      ⟨htop, rule, hgoing, .inl ⟨h.unaryChild?_lexical, rfl⟩⟩
  | unary rule child ih =>
    obtain ⟨⟨-, hbody⟩, hchild⟩ := licensed_unary.mp h
    obtain ⟨-, hbelow⟩ := noRounds_unary_iff.mp hrounds
    -- the label is used up, and the spine below does without it
    have hrest : ∀ node ∈ child.spine, node.label ∈ Ruleset.leave rule.head available :=
      fun node hn => Ruleset.mem_leave.mpr
        ⟨havailable node (List.mem_cons_of_mem _ hn), hrounds.label_ne hn⟩
    have hchain := ih hchild hbelow hrest (weight * rule.weight)
      (hrest child (self_mem_spine child)) (hchild.mem_goingOn hbelow)
    rw [mul_assoc] at hchain
    exact Ruleset.mem_expansions_iff.mpr ⟨htop, rule, hgoing, .inr
      ⟨child.label, Rule.unaryChild?_eq_some_iff.mpr hbody, hchain⟩⟩
  | binary rule left right =>
    exact Ruleset.mem_expansions_iff.mpr
      ⟨htop, rule, hgoing, .inl ⟨h.unaryChild?_binary, rfl⟩⟩

/-- The shortcut is among what takes the place of the rule at the top. -/
theorem shortcut_mem (h : tree.Licensed rules tokens) (hrounds : tree.NoRounds) :
    tree.shortcut ∈ Ruleset.withoutUnary rules.goingOn rules.chainLabels tree.rule := by
  cases tree with
  | lexical rule token position =>
    simp [Ruleset.withoutUnary, Tree.rule, shortcut, h.unaryChild?_lexical]
  | unary rule child =>
    obtain ⟨⟨-, hbody⟩, hchild⟩ := licensed_unary.mp h
    obtain ⟨-, hbelow⟩ := noRounds_unary_iff.mp hrounds
    have hsome : rule.unaryChild? = some child.label := Rule.unaryChild?_eq_some_iff.mpr hbody
    have hleft : ∀ node ∈ child.spine,
        node.label ∈ Ruleset.leave rule.head rules.chainLabels :=
      fun node hn => Ruleset.mem_leave.mpr
        ⟨hchild.label_mem_chainLabels hbelow node hn, hrounds.label_ne hn⟩
    have hchain := hchild.mem_expansions hbelow hleft rule.weight
    simp only [Ruleset.withoutUnary, Tree.rule, hsome]
    exact List.mem_map.mpr ⟨_, hchain, rfl⟩
  | binary rule left right =>
    simp [Ruleset.withoutUnary, Tree.rule, shortcut, h.unaryChild?_binary]

/-- The rules in normal form have one with no less weight than the shortcut. -/
theorem outweighs_shortcut (h : tree.Licensed rules tokens) (hrounds : tree.NoRounds)
    (hpos : rules.IsPositive) : rules.normalForm.Outweighs tree.shortcut := by
  have hmem : tree.shortcut ∈ rules.nonLoops.flatMap
      (Ruleset.withoutUnary rules.goingOn rules.chainLabels) :=
    List.mem_flatMap.mpr
      ⟨tree.rule, (List.mem_filter.mp (h.mem_goingOn hrounds)).1, h.shortcut_mem hrounds⟩
  have hpositive := Ruleset.carry_pos_iff.mp
    ((Ruleset.carry_pos_iff.mpr hpos).withoutUnary Ruleset.kept_pos)
  refine Ruleset.Outweighs.normalForm ?_ h.body_shortcut
  rw [Ruleset.eliminateUnary_eq]
  exact Ruleset.outweighs_merge hpositive hmem

end Tree.Licensed

/-! ### Trees in normal form -/

namespace Tree

variable {rules others : Ruleset ℚ} {tokens : List String} {tree : Tree ℚ}

/-- Whether other rules have a tree over the span below each of them that has the body of the
shortcut. Apart from the weights of the two rules it is no less probable. -/
def Replaceable (others : Ruleset ℚ) (tokens : List String) (tree : Tree ℚ) : Prop :=
  ∀ rule ∈ others, rule.body = tree.shortcut.body →
    ∃ made : Tree ℚ, made.IsDerivation others tokens rule.head tree.first tree.last ∧
      tree.probability * rule.weight ≤ made.probability * tree.shortcut.weight

/-- A rule that outweighs the shortcut makes the tree no less probable as a whole. -/
theorem Replaceable.exists_tree (h : tree.Replaceable others tokens)
    (hothers : others.IsPositive) (hout : others.Outweighs tree.shortcut) :
    ∃ made : Tree ℚ, made.IsDerivation others tokens tree.label tree.first tree.last ∧
      tree.probability ≤ made.probability := by
  obtain ⟨rule, hr, hhead, hbody, hweight⟩ := hout
  obtain ⟨made, hmade, hle⟩ := h rule hr hbody
  have hmore : made.probability * tree.shortcut.weight ≤ made.probability * rule.weight :=
    mul_le_mul_of_nonneg_left hweight (hmade.licensed.probability_pos hothers).le
  rw [hhead, head_shortcut] at hmade
  exact ⟨made, hmade, le_of_mul_le_mul_right (hle.trans hmore) (hothers rule hr)⟩

namespace Licensed

/-- Rules in normal form have trees for all trees that go round no cycle, node by node. -/
theorem replaceable (h : tree.Licensed rules tokens) (hrounds : tree.NoRounds)
    (hpos : rules.IsPositive) : tree.Replaceable rules.normalForm tokens := by
  have hothers : rules.normalForm.IsPositive := hpos.normalForm
  induction tree with
  | lexical top token position =>
    obtain ⟨-, htoken, word, hword, hmatch⟩ := licensed_lexical.mp h
    intro rule hr hbody
    refine ⟨.lexical rule token position, ⟨licensed_lexical.mpr ⟨hr, htoken, word,
      hbody.trans hword, hmatch⟩, rfl, rfl, rfl⟩, ?_⟩
    exact (mul_comm top.weight rule.weight).le
  | unary top child ih =>
    obtain ⟨⟨htop, -⟩, hchild⟩ := licensed_unary.mp h
    obtain ⟨-, hbelow⟩ := noRounds_unary_iff.mp hrounds
    intro rule hr hbody
    obtain ⟨made, hmade, hle⟩ := ih hchild hbelow rule hr hbody
    refine ⟨made, hmade, ?_⟩
    calc top.weight * child.probability * rule.weight
        = top.weight * (child.probability * rule.weight) := mul_assoc _ _ _
      _ ≤ top.weight * (made.probability * child.shortcut.weight) :=
          mul_le_mul_of_nonneg_left hle (hpos top htop).le
      _ = made.probability * (top.weight * child.shortcut.weight) := mul_left_comm _ _ _
  | binary top left right ihl ihr =>
    obtain ⟨⟨htop, hchildren, hadj⟩, hleft, hright⟩ := licensed_binary.mp h
    obtain ⟨-, hleftRounds, hrightRounds⟩ := noRounds_binary_iff.mp hrounds
    obtain ⟨l, hl, hlle⟩ := (ihl hleft hleftRounds).exists_tree hothers
      (hleft.outweighs_shortcut hleftRounds hpos)
    obtain ⟨r, hr, hrle⟩ := (ihr hright hrightRounds).exists_tree hothers
      (hright.outweighs_shortcut hrightRounds hpos)
    intro rule hrule hbody
    have hbody' : rule.body = [.nonterminal l.label, .nonterminal r.label] := by
      rw [hbody, hl.label_eq, hr.label_eq]
      exact hchildren
    have hadj' : l.last + 1 = r.first := by rw [hl.last_eq, hr.first_eq, hadj]
    refine ⟨.binary rule l r, ⟨licensed_binary.mpr ⟨⟨hrule, hbody', hadj'⟩, hl.licensed,
      hr.licensed⟩, rfl, hl.first_eq, hr.last_eq⟩, ?_⟩
    have hchildren : left.probability * right.probability ≤ l.probability * r.probability :=
      mul_le_mul hlle hrle (hright.probability_pos hpos).le (hl.licensed.probability_pos hothers).le
    calc top.weight * left.probability * right.probability * rule.weight
        = top.weight * rule.weight * (left.probability * right.probability) := by ring
      _ ≤ top.weight * rule.weight * (l.probability * r.probability) :=
          mul_le_mul_of_nonneg_left hchildren (mul_pos (hpos top htop) (hothers rule hrule)).le
      _ = rule.weight * l.probability * r.probability * top.weight := by ring

/-- A tree that goes round no cycle has one in normal form that is no less probable. -/
theorem exists_tree_normalForm (h : tree.Licensed rules tokens) (hrounds : tree.NoRounds)
    (hpos : rules.IsPositive) :
    ∃ made : Tree ℚ, made.IsDerivation rules.normalForm tokens tree.label tree.first tree.last ∧
      tree.probability ≤ made.probability :=
  (h.replaceable hrounds hpos).exists_tree hpos.normalForm (h.outweighs_shortcut hrounds hpos)

end Licensed

end Tree

namespace Grammar

/-- Without a beam and a limit, a grammar with weights of one at most has a chart of every list of
tokens. Wherever the chart holds a tree for a label, the chart of the grammar in normal form holds
one that is no less probable. -/
theorem exists_chart_toNormalForm {g c : Grammar ℚ} (hc : g.toNormalForm = .ok c)
    (hone : ∀ rule ∈ g.rules, rule.weight ≤ 1) (tokens : List String) (options : ParseOptions)
    (hbeam : options.beam = 0) (hlimit : options.maxSteps = none) :
    (tokens ≠ [] → ∃ chart, g.chart tokens options = .ok chart) ∧
    ∀ chart, g.chart tokens options = .ok chart →
      ∃ chart', c.chart tokens options = .ok chart' ∧
        ∀ label first last a, chart.best? label first last = some a →
          ∃ b, chart'.best? label first last = some b ∧ a.tree.probability ≤ b.tree.probability := by
  have hgain : g.NoGain := noGain_of_weight_le_one fun rule hr _ => hone rule hr
  refine ⟨fun ht => exists_chart_of_noGain hgain ht hlimit, fun chart hchart => ?_⟩
  obtain ⟨hvalid, hrules⟩ := rules_of_toNormalForm hc
  have hpos : g.rules.IsPositive := Ruleset.isPositive_of_validate hvalid
  have hunary := unaryRules_of_toNormalForm hc
  obtain ⟨ht, -⟩ := fill_of_chart hchart
  obtain ⟨hlength, hfree⟩ := roundFreeCell_of_chart hgain hchart
  obtain ⟨chart', hchart'⟩ := exists_chart hunary tokens ht options hlimit
  obtain ⟨-, hexact⟩ := exactCell_of_chart Score.comparison_le
    (fun _ _ _ closed _ _ => Cell.settled_of_no_unary hunary closed.cell) hbeam hchart'
  refine ⟨chart', hchart', fun label first last a ha => ?_⟩
  obtain ⟨hle, hlt⟩ := Chart.span_of_best? ha
  rw [hlength] at hlt
  obtain ⟨rfl, hderives, hrounds⟩ := hfree first last hle hlt label a ha
  obtain ⟨made, hmade, hprobable⟩ := hderives.licensed.exists_tree_normalForm hrounds hpos
  rw [← hrules, hderives.first_eq, hderives.last_eq] at hmade
  obtain ⟨b, hb⟩ := (hexact first last hle hlt).exists_iff.mpr ⟨made, hmade⟩
  have hscore : made.score ≤ b.tree.score :=
    b.score_eq ▸ (hexact first last hle hlt).compares hb hmade
  have hpos' : c.rules.IsPositive := hrules ▸ hpos.normalForm
  have hlicensed := ((hexact first last hle hlt).isDerivation hb).licensed
  have hbest := (hmade.licensed.score_le_score_iff hpos' hlicensed hpos').mp hscore
  exact ⟨b, hb, hprobable.trans hbest⟩

/-- A word below a label that lies on a cycle. -/
theorem licensed_cyclic :
    (Tree.unary (.unary "A" "B" (1 / 2)) (.lexical (.lexical "B" "y" (1 / 2)) "y" 0)).Licensed
      cyclic.rules ["y"] := by
  have hunary : .unary "A" "B" (1 / 2) ∈ cyclic.rules := by decide +kernel
  have hlexical : .lexical "B" "y" (1 / 2) ∈ cyclic.rules := by decide +kernel
  exact Tree.licensed_unary.mpr ⟨⟨hunary, rfl⟩,
    Tree.licensed_lexical.mpr ⟨hlexical, rfl, "y", rfl, rfl⟩⟩

/-- The chart holds the word below the label, and so does the chart of the grammar in normal form,
which has no cycle. -/
theorem exists_chart_toNormalForm_cyclic :
    ∃ c chart', cyclic.toNormalForm = .ok c ∧
      c.chart ["y"] { beam := 0 } = .ok chart' ∧
        ∃ b, chart'.best? "A" 0 0 = some b ∧ 1 / 4 ≤ b.tree.probability := by
  obtain ⟨c, hc⟩ := exists_toNormalForm_cyclic
  have hone : ∀ rule ∈ cyclic.rules, rule.weight ≤ 1 := by decide +kernel
  have hpos : cyclic.rules.IsPositive :=
    Ruleset.isPositive_of_validate (rules_of_toNormalForm hc).1
  obtain ⟨hcharts, hbest⟩ := exists_chart_toNormalForm hc hone ["y"] { beam := 0 } rfl rfl
  obtain ⟨chart, hchart⟩ : ∃ chart, cyclic.chart ["y"] { beam := 0 } = .ok chart :=
    hcharts (List.cons_ne_nil _ _)
  obtain ⟨-, hexact⟩ := exactCell_of_chart Score.comparison_le
    (fun _ _ _ _ hcell hrun => Closure.settled_run hrun hcell) rfl hchart
  have hcell := hexact 0 0 le_rfl Nat.one_pos
  obtain ⟨a, ha⟩ := hcell.exists_iff.mpr ⟨_, licensed_cyclic, rfl, rfl, rfl⟩
  have hscore := hcell.compares ha ⟨licensed_cyclic, rfl, rfl, rfl⟩
  rw [a.score_eq] at hscore
  have hquarter := (licensed_cyclic.score_le_score_iff hpos (hcell.isDerivation ha).licensed
    hpos).mp hscore
  obtain ⟨chart', hchart', hall⟩ := hbest chart hchart
  obtain ⟨b, hb, hle⟩ := hall _ _ _ _ ha
  refine ⟨c, chart', hc, hchart', b, hb, le_trans ?_ (hquarter.trans hle)⟩
  norm_num [Tree.probability, Rule.unary, Rule.lexical]

end Grammar

end Constituency
