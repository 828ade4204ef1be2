import Constituency.Proofs.Chart.Soundness
import Constituency.Proofs.Grammar.Gains

/-!
# Closures go round no cycle

A closure puts a unary node above an analysis that it holds or has held. Whatever is on the spine of
such an analysis has been offered to the cell, so that the cell reaches its score. If no cycle
gains, a node with a label of the spine is therefore never accepted, and no tree that a closure
holds goes round a cycle, at no step. With a cycle that gains the first round is accepted.
-/
namespace Constituency

variable {α σ : Type} [Weight α] [Score σ] [Logarithm α σ]

namespace Closure

/-- The closure in the middle of working off an analysis: after `count` rules. -/
def partway (g : Grammar α) (c : Closure α) (count : Nat) : Closure α :=
  match c.pending with
  | [] => c
  | child :: rest =>
    if c.cell.hasBetter child then { c with pending := rest }
    else ((g.unaryRules child.label).take count).foldl (apply child) { c with pending := rest }

/-- A step is over after all rules. -/
theorem exists_partway_eq_step (g : Grammar α) (c : Closure α) :
    ∃ count, c.partway g count = c.step g := by
  cases hp : c.pending with
  | nil => exact ⟨0, by simp only [partway, step, hp]⟩
  | cons child rest =>
    refine ⟨(g.unaryRules child.label).length, ?_⟩
    simp only [partway, step, hp, List.take_length]

/-- Where one rule applies to an analysis that is not replaced yet, a step is over after it. -/
theorem partway_one {g : Grammar α} {c : Closure α} {child : Analysis α} {rest : List (Analysis α)}
    {rule : Rule α} (hp : c.pending = child :: rest) (hbetter : c.cell.hasBetter child = false)
    (hrules : g.unaryRules child.label = [rule]) :
    c.partway g 1 = Closure.apply child { c with pending := rest } rule := by
  simp only [partway, hp, hbetter, hrules, Bool.false_eq_true, if_false, List.take_succ_cons,
    List.take_zero, List.foldl_cons, List.foldl_nil]

end Closure

namespace Chart

/-- An analysis of a span that goes round no cycle, and whose spine the cell reaches. -/
structure RoundFree (g : Grammar α) (tokens : List String) (first last : Nat) (cell : Cell α)
    (a : Analysis α) : Prop where
  derives : Derives g tokens first last a
  noRounds : a.tree.NoRounds
  reached : ∀ node ∈ a.tree.spine, cell.Reaches (· ≤ ·) node.label node.score

variable {g : Grammar α} {tokens : List String} {first last : Nat} {cell : Cell α} {a : Analysis α}

section Steps

variable [LawfulScore σ]

theorem RoundFree.offer (h : RoundFree g tokens first last cell a) (b : Analysis α) :
    RoundFree g tokens first last (cell.offer b) a :=
  { h with reached := fun node hn => (h.reached node hn).offer Score.comparison_le b }

/-- A node with a label of the spine below it is not accepted. -/
theorem RoundFree.label_ne (hg : g.NoGain) (h : RoundFree g tokens first last cell a)
    {rule : Rule α} (hr : rule ∈ g.unaryRules a.label)
    (haccepts : cell.accepts (.unary rule a) = true) :
    ∀ node ∈ a.tree.spine, node.label ≠ rule.head := by
  rintro node hn heq
  obtain ⟨held, hheld, hle⟩ := h.reached node hn
  have hclimbs : g.Climbs node.label node.score rule.head (Logarithm.log rule.weight + a.score) :=
    a.score_eq ▸ (Grammar.climbs_of_mem_spine h.derives.licensed hn).unary hr
  have hgain : Logarithm.log rule.weight + a.score ≤ node.score := hg _ _ _ (heq ▸ hclimbs)
  rw [heq] at hheld
  exact Cell.not_le_of_accepts haccepts hheld (LawfulScore.le_trans hgain hle)

/-- A unary node that is accepted goes round no cycle. -/
theorem RoundFree.unary (hg : g.NoGain) (h : RoundFree g tokens first last cell a)
    {rule : Rule α} (hr : rule ∈ g.unaryRules a.label)
    (haccepts : cell.accepts (.unary rule a) = true) :
    RoundFree g tokens first last (cell.offer (.unary rule a)) (.unary rule a) where
  derives := derives_unary h.derives hr
  noRounds := (derives_unary h.derives hr).licensed.noRounds_unary h.noRounds
    (h.label_ne hg hr haccepts)
  reached node hn := by
    rcases List.mem_cons.mp hn with rfl | hn
    · have hself := Cell.reaches_offer_self Score.comparison_le cell (.unary rule a)
      rwa [(Analysis.unary rule a).score_eq] at hself
    · exact (h.reached node hn).offer Score.comparison_le _

/-- All analyses of a closure, held or waiting, go round no cycle. -/
def CycleFree (g : Grammar α) (tokens : List String) (first last : Nat) (c : Closure α) : Prop :=
  c.Every (RoundFree g tokens first last c.cell)

theorem CycleFree.apply (hg : g.NoGain) {c : Closure α} (h : CycleFree g tokens first last c)
    (ha : RoundFree g tokens first last c.cell a) {rule : Rule α}
    (hr : rule ∈ g.unaryRules a.label) : CycleFree g tokens first last (c.apply a rule) := by
  by_cases haccepts : c.cell.accepts (.unary rule a) = true
  · have hmade := ha.unary hg hr haccepts
    rw [CycleFree, Closure.cell_apply]
    constructor
    · rw [Closure.cell_apply]
      exact (h.held.imp fun b hb => hb.offer _).offer hmade
    · intro b hb
      rw [Closure.pending_apply, if_pos haccepts] at hb
      rcases List.mem_cons.mp hb with rfl | hb
      · exact hmade
      · exact (h.waiting b hb).offer _
  · have hsame : c.apply a rule = { c with used := c.used + 1 } := by
      simp [Closure.apply, haccepts]
    rw [hsame]
    exact ⟨h.held, h.waiting⟩

theorem CycleFree.foldl_apply (hg : g.NoGain) {c : Closure α}
    (h : CycleFree g tokens first last c) (ha : RoundFree g tokens first last c.cell a)
    {rules : Ruleset α} (hrules : ∀ rule ∈ rules, rule ∈ g.unaryRules a.label) :
    CycleFree g tokens first last (rules.foldl (Closure.apply a) c) := by
  induction rules generalizing c with
  | nil => exact h
  | cons rule rules ih =>
    have hr := hrules rule List.mem_cons_self
    refine ih (h.apply hg ha hr) ?_ fun r hm => hrules r (List.mem_cons_of_mem rule hm)
    rw [Closure.cell_apply]
    exact ha.offer _

/-- No rule that is applied makes a tree that goes round a cycle and is accepted. -/
theorem CycleFree.partway (hg : g.NoGain) {c : Closure α} (h : CycleFree g tokens first last c)
    (count : Nat) : CycleFree g tokens first last (c.partway g count) := by
  cases hp : c.pending with
  | nil =>
    simp only [Closure.partway, hp]
    exact h
  | cons child rest =>
    have hchild : RoundFree g tokens first last c.cell child :=
      h.waiting child (hp ▸ List.mem_cons_self)
    have hrest : CycleFree g tokens first last { c with pending := rest } :=
      ⟨h.held, fun b hb => h.waiting b (hp ▸ List.mem_cons_of_mem child hb)⟩
    simp only [Closure.partway, hp]
    split
    · exact hrest
    · exact hrest.foldl_apply hg hchild fun rule hr => List.mem_of_mem_take hr

theorem CycleFree.step (hg : g.NoGain) {c : Closure α} (h : CycleFree g tokens first last c) :
    CycleFree g tokens first last (c.step g) := by
  obtain ⟨count, hcount⟩ := c.exists_partway_eq_step g
  exact hcount ▸ h.partway hg count

theorem CycleFree.iterate (hg : g.NoGain) {c : Closure α} (h : CycleFree g tokens first last c)
    (n : Nat) : CycleFree g tokens first last ((Closure.step g)^[n] c) := by
  induction n with
  | zero => exact h
  | succ n ih =>
    rw [Function.iterate_succ_apply']
    exact ih.step hg

/-! ### The cells of a chart -/

/-- A cell of derivations of its span that go round no cycle. -/
def RoundFreeCell (g : Grammar α) (tokens : List String) (first last : Nat) (cell : Cell α) :
    Prop :=
  cell.Every fun a => Derives g tokens first last a ∧ a.tree.NoRounds

omit [LawfulScore σ] in
/-- What a span starts with has no unary node at the top. -/
theorem spine_starters {chart : Chart α}
    (hcells : ∀ i j, i ≤ j → j < tokens.length → j - i < last - first →
      RoundFreeCell g tokens i j (chart.cell i j))
    (hle : first ≤ last) (hlt : last < tokens.length)
    (ha : a ∈ (starters g tokens.toArray chart first last).flatten) :
    a.tree.NoRounds ∧ a.tree.spine = [a.tree] := by
  have hderives : Derives g tokens first last a :=
    derives_starters (fun i j hij hj hlen => (hcells i j hij hj hlen).imp fun _ h => h.1) hle hlt ha
  rcases Nat.eq_or_lt_of_le hle with rfl | hlast
  · obtain ⟨token, -, rule, -, rfl⟩ := mem_starters_token.mp ha
    exact ⟨Tree.noRounds_lexical _ _ _, rfl⟩
  · obtain ⟨split, hfs, hsl, l, hl, r, hr, rule, -, rfl⟩ := (mem_starters_split hlast).mp ha
    have hleft := (hcells first split hfs (by omega) (by omega)).of_mem_values hl
    have hright := (hcells (split + 1) last (by omega) hlt (by omega)).of_mem_values hr
    exact ⟨hderives.licensed.noRounds_binary hleft.2 hright.2, rfl⟩

/-- A span begins with a closure that goes round no cycle. -/
theorem cycleFree_start {chart : Chart α}
    (hcells : ∀ i j, i ≤ j → j < tokens.length → j - i < last - first →
      RoundFreeCell g tokens i j (chart.cell i j))
    (hle : first ≤ last) (hlt : last < tokens.length) (used : Nat) :
    CycleFree g tokens first last
      (Closure.start (opened g tokens.toArray chart first last) used) := by
  refine Closure.every_start ((Cell.every_empty _).foldl_offer fun a ha => ?_) used
  obtain ⟨hrounds, hspine⟩ := spine_starters hcells hle hlt ha
  refine ⟨derives_starters (fun i j hij hj hlen => (hcells i j hij hj hlen).imp fun _ h => h.1)
    hle hlt ha, hrounds, fun node hn => ?_⟩
  rw [hspine] at hn
  obtain rfl := List.mem_singleton.mp hn
  rw [← a.score_eq]
  exact Cell.reaches_foldl_offer Score.comparison_le ∅ ha

theorem fills_roundFreeCell (hg : g.NoGain) (tokens : List String) (beam : Nat)
    (limit : Option Nat) : Fills g tokens.toArray beam limit (RoundFreeCell g tokens) := by
  intro chart first last used closed _ hle hlt hshorter hrun
  have hstart := cycleFree_start hshorter hle hlt used
  obtain ⟨hclosed, -⟩ := Closure.run_induction
    (P := CycleFree g tokens first last) (fun _ _ h => h.step hg) hrun hstart
  exact (hclosed.held.imp fun _ h => ⟨h.derives, h.noRounds⟩).prune beam

end Steps

/-- The closures that arise while a chart is filled, a span after a part of the others. -/
def Arises (g : Grammar α) (tokens : Array String) (beam : Nat) (limit : Option Nat)
    (c : Closure α) : Prop :=
  ∃ (done todo : List (Nat × Nat)) (first last : Nat) (progress : Progress α) (n : Nat),
    done ++ (first, last) :: todo = spans tokens.size ∧
      (done.foldlM (fillSpan g tokens beam limit)
        { chart := empty tokens.size, used := 0, built := 0 }).run = some (.ok progress) ∧
      c = (Closure.step g)^[n] (Closure.start (opened g tokens progress.chart first last)
        (progress.used + (starters g tokens progress.chart first last).length))

theorem Arises.step {tokens : Array String} {beam : Nat} {limit : Option Nat} {c : Closure α}
    (h : Arises g tokens beam limit c) : Arises g tokens beam limit (c.step g) := by
  obtain ⟨done, todo, first, last, progress, n, hspans, hdone, rfl⟩ := h
  exact ⟨done, todo, first, last, progress, n + 1, hspans, hdone,
    (Function.iterate_succ_apply' _ _ _).symm⟩

end Chart

namespace Grammar

variable [LawfulScore σ] {g : Grammar α}

/-- If no cycle of unary rules gains, no tree in a chart goes round one. -/
theorem roundFreeCell_of_chart (hg : g.NoGain) {tokens : List String} {options : ParseOptions}
    {chart : Chart α} (h : g.chart tokens options = .ok chart) :
    chart.length = tokens.length ∧ ∀ first last, first ≤ last → last < tokens.length →
      Chart.RoundFreeCell g tokens first last (chart.cell first last) := by
  obtain ⟨-, progress, hfill, rfl⟩ := fill_of_chart h
  exact Chart.fill_induction (Chart.fills_roundFreeCell hg tokens options.beam options.limit) hfill

/-- If no cycle of unary rules gains, no tree that a cell holds goes round one: neither in the
middle of a closure, after whatever number of steps and rules, nor in a chart in the end. -/
theorem noRounds_of_noGain (hg : g.NoGain) (tokens : List String) (options : ParseOptions) :
    (∀ c, Chart.Arises g tokens.toArray options.beam options.limit c →
      ∀ (count : Nat) (label : String) (a : Analysis α),
        (c.partway g count).cell[label]? = some a → a.tree.NoRounds) ∧
    ∀ chart, g.chart tokens options = .ok chart → ∀ first last, first ≤ last →
      last < tokens.length → ∀ label a, chart.best? label first last = some a →
        a.tree.NoRounds := by
  have hfills := Chart.fills_roundFreeCell hg tokens options.beam options.limit
  constructor
  · rintro c ⟨done, todo, first, last, progress, n, hspans, hdone, rfl⟩ count label a ha
    obtain ⟨-, hcells⟩ := (Chart.filled_nil tokens.toArray _).foldlM hfills
      (by rw [List.nil_append]; exact hspans) hdone
    obtain ⟨hle, hlt⟩ : first ≤ last ∧ last < tokens.toArray.size :=
      Chart.mem_spans.mp (hspans ▸ List.mem_append_right done List.mem_cons_self)
    obtain ⟨hbefore, -⟩ := Chart.before_of_spans hspans
    have hstart := Chart.cycleFree_start
      (fun i j hij hj hlen => hcells (i, j) (hbefore i j hij hj hlen)) hle hlt
      (progress.used + (Chart.starters g tokens.toArray progress.chart first last).length)
    exact (((hstart.iterate hg n).partway hg count).held label a ha).2.noRounds
  · intro chart h first last hle hlt label a ha
    exact ((roundFreeCell_of_chart hg h).2 first last hle hlt label a ha).2.2

/-! ### A cycle of two rules -/

/-- Two labels that rewrite each other, one of them with a word. -/
def roundRules (weight : ℚ) : Ruleset ℚ :=
  [.unary "A" "B" weight, .unary "B" "A" weight, .lexical "A" "x" 1]

/-- The grammar of a cycle with a weight that is admitted. -/
def round (weight : ℚ) (h : (roundRules weight).fault? .probabilities = none) : Grammar ℚ where
  start := "A"
  rules := roundRules weight
  index := .ofRules (roundRules weight)
  rules_ne_nil := List.cons_ne_nil _ _
  rules_valid := h
  index_eq := rfl

theorem fault?_roundRules_one : (roundRules 1).fault? .probabilities = none := by
  decide +kernel

/-- A cycle of rules with weight one gains nothing. -/
theorem noRounds_of_weight_one :
    (∀ c, Chart.Arises (round 1 fault?_roundRules_one) #["x"] 10 none c →
      ∀ (count : Nat) (label : String) (a : Analysis ℚ),
        (c.partway (round 1 fault?_roundRules_one) count).cell[label]? = some a →
          a.tree.NoRounds) ∧
      ∃ c, Chart.Arises (round 1 fault?_roundRules_one) #["x"] 10 none c := by
  have hone : ∀ rule ∈ roundRules 1, rule.unaryChild? ≠ none → rule.weight ≤ 1 := by
    decide +kernel
  obtain ⟨harises, -⟩ := noRounds_of_noGain
    (noGain_of_weight_le_one (g := round 1 fault?_roundRules_one) hone) ["x"] {}
  exact ⟨harises, _, [], [], 0, 0, _, 0, rfl, rfl, rfl⟩

variable {weight : ℚ} {h : (roundRules weight).fault? .probabilities = none}

theorem unaryRules_round_A : (round weight h).unaryRules "A" = [.unary "B" "A" weight] := by
  rw [unaryRules_eq_filter]
  simp [round, roundRules, Rule.unaryChild?, Rule.shape, Rule.unary, Rule.lexical]

theorem unaryRules_round_B : (round weight h).unaryRules "B" = [.unary "A" "B" weight] := by
  rw [unaryRules_eq_filter]
  simp [round, roundRules, Rule.unaryChild?, Rule.shape, Rule.unary, Rule.lexical]

theorem lexicalRules_round :
    (round weight h).lexicalRules (Text.lowerCase "x") = [.lexical "A" "x" 1] := by
  rw [lexicalRules_eq_filter]
  simp [round, roundRules, Index.wordKey?, Rule.word?, Rule.shape, Rule.unary, Rule.lexical]

theorem opened_round (chart : Chart ℚ) :
    Chart.opened (round weight h) #["x"] chart 0 0 =
      Cell.offer ∅ (.lexical (.lexical "A" "x" 1) "x" 0) := by
  simp [Chart.opened, Chart.starters, Chart.ofToken, lexicalRules_round]

/-- The word of the cycle. -/
noncomputable def roundWord : Analysis ℚ :=
  .lexical (.lexical "A" "x" 1) "x" 0

/-- The word after half a round. -/
noncomputable def halfRound (weight : ℚ) : Analysis ℚ :=
  .unary (.unary "B" "A" weight) roundWord

/-- The word after a whole round. -/
noncomputable def wholeRound (weight : ℚ) : Analysis ℚ :=
  .unary (.unary "A" "B" weight) (halfRound weight)

theorem not_noRounds_wholeRound : ¬ (wholeRound weight).tree.NoRounds := by
  intro hrounds
  have hword : roundWord.tree ∈ (halfRound weight).tree.subtrees :=
    List.mem_cons_of_mem _ List.mem_cons_self
  exact (Tree.noRounds_unary_iff.mp hrounds).1 _ hword rfl

/-- The cell with the word. -/
noncomputable def wordCell : Cell ℚ :=
  (∅ : Cell ℚ).insert "A" roundWord

/-- The cell after half a round. -/
noncomputable def halfCell (weight : ℚ) : Cell ℚ :=
  wordCell.insert "B" (halfRound weight)

theorem getElem?_wordCell (label : String) :
    wordCell[label]? = if "A" = label then some roundWord else none := by
  simp [wordCell, Std.TreeMap.getElem?_insert, Std.LawfulEqCmp.compare_eq_iff_eq]

theorem getElem?_halfCell (label : String) :
    (halfCell weight)[label]? =
      if "B" = label then some (halfRound weight) else wordCell[label]? := by
  simp [halfCell, Std.TreeMap.getElem?_insert, Std.LawfulEqCmp.compare_eq_iff_eq]

/-- The word is the first to be worked off. -/
theorem arises_round :
    Chart.Arises (round weight h) #["x"] 10 none
      { cell := wordCell, pending := [roundWord], used := 1 } := by
  refine ⟨[], [], 0, 0, _, 0, rfl, rfl, ?_⟩
  rw [opened_round]
  have hstarters : Chart.starters (round weight h) #["x"] (Chart.empty 1) 0 0 =
      [[.lexical (.lexical "A" "x" 1) "x" 0]] := by
    simp [Chart.starters, Chart.ofToken, lexicalRules_round]
  change _ = Closure.start _
    (0 + (Chart.starters (round weight h) #["x"] (Chart.empty 1) 0 0).length)
  rw [hstarters]
  rfl

/-- Half a round is accepted, since nothing else has its label. -/
theorem step_round :
    Closure.step (round weight h) { cell := wordCell, pending := [roundWord], used := 1 } =
      { cell := halfCell weight, pending := [halfRound weight], used := 2 } := by
  have hbetter : wordCell.hasBetter roundWord = false :=
    Cell.hasBetter_eq_false (getElem?_wordCell "A")
  have haccepts : wordCell.accepts (halfRound weight) = true := by
    have hnone : wordCell[(halfRound weight).label]? = none := getElem?_wordCell "B"
    rw [Cell.accepts, hnone]
  rw [Closure.step_of_rule rfl hbetter unaryRules_round_A]
  exact Closure.apply_of_accepts haccepts

/-- A whole round gains twice the logarithm of the weight. -/
theorem accepts_wholeRound (hgain : 1 < weight) :
    (halfCell weight).accepts (wholeRound weight) = true := by
  have hheld : (halfCell weight)[(wholeRound weight).label]? = some roundWord :=
    (getElem?_halfCell "A").trans (getElem?_wordCell "A")
  have hlog : 0 < Real.log weight := Real.log_pos (by exact_mod_cast hgain)
  have hscore : (wholeRound weight).score =
      Real.log weight + (Real.log weight + roundWord.score) := rfl
  simp only [Cell.accepts, hheld, Bool.not_eq_true', decide_eq_false_iff_not, not_le, hscore]
  linarith

/-- A weight above one makes the closure of a cell accept a round, whichever weight it is. -/
theorem exists_round_of_one_lt (hgain : 1 < weight) :
    ∃ c, Chart.Arises (round weight h) #["x"] 10 none c ∧
      ∃ a, (c.partway (round weight h) 1).cell["A"]? = some a ∧ ¬ a.tree.NoRounds := by
  have hbetter : (halfCell weight).hasBetter (halfRound weight) = false :=
    Cell.hasBetter_eq_false (getElem?_halfCell "B")
  refine ⟨_, step_round ▸ arises_round.step, wholeRound weight, ?_, not_noRounds_wholeRound⟩
  rw [Closure.partway_one rfl hbetter unaryRules_round_B,
    Closure.apply_of_accepts (accepts_wholeRound hgain)]
  exact Std.TreeMap.getElem?_insert_self

/-- A weight that validation admits as a probability makes a closure hold a round. -/
theorem round_of_tolerated_weight :
    ∃ h : (roundRules (1 + 1 / (2 * 10 ^ 9))).fault? .probabilities = none,
      ∃ c, Chart.Arises (round _ h) #["x"] 10 none c ∧
        ∃ a, (c.partway (round _ h) 1).cell["A"]? = some a ∧ ¬ a.tree.NoRounds :=
  ⟨by decide +kernel, exists_round_of_one_lt (by norm_num)⟩

end Grammar

end Constituency
