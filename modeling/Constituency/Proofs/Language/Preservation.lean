import Constituency.Proofs.Chart.Exactness
import Constituency.Proofs.Language.Trees
import Constituency.Proofs.NormalForm.Grammars

/-!
# Parsing in normal form

A grammar in normal form has no unary rules, so that its charts are complete and without a beam find
every derivation, whatever the scores. Together with the conversion this makes the parser decide the
language of a grammar with plain names, whatever rules it has.
-/
namespace Constituency

variable {α σ : Type} [Weight α] [Score σ] [Logarithm α σ]

/-- Without unary rules every closure leaves nothing to them. -/
theorem Cell.settled_of_no_unary {R : σ → σ → Prop} {g : Grammar α}
    (hg : ∀ label, g.unaryRules label = []) (cell : Cell α) : cell.Settled R g := by
  intro label a _ rule hr
  rw [hg label] at hr
  cases hr

namespace Grammar

/-- Without unary rules, a beam and a limit, a parse succeeds exactly if there is a derivation. No
law of scores is needed. -/
theorem parse_of_no_unary {g : Grammar α} (hg : ∀ label, g.unaryRules label = [])
    {tokens : List String} (ht : tokens ≠ []) {options : ParseOptions} (hbeam : options.beam = 0)
    (hlimit : options.maxSteps = none) :
    (∃ a, g.parse tokens options = .ok a) ↔
      ∃ tree : Tree α, tree.IsDerivation g.rules tokens options.start 0 (tokens.length - 1) := by
  obtain ⟨chart, h⟩ := exists_chart hg tokens ht options hlimit
  obtain ⟨hlength, hcells⟩ := exactCell_of_chart Score.comparison_true
    (fun _ _ _ closed _ _ => Cell.settled_of_no_unary hg closed.cell) hbeam h
  have hroot := hcells 0 (tokens.length - 1) (Nat.zero_le _) (pred_length_lt_of_chart h)
  simp only [parse_eq_ok_iff h hlength]
  exact hroot.exists_iff

/-- Tokens can be derived from a label by rules of any shape exactly if the grammar in normal form
parses them. -/
theorem yields_iff_parse_toNormalForm {g c : Grammar α} (hc : g.toNormalForm = .ok c)
    (hnames : g.rules.PlainNames) {label : String} (hlabel : label ∈ g.rules.nonterminals)
    {tokens : List String} (ht : tokens ≠ []) :
    Yields g.rules [.nonterminal label] tokens ↔
      ∃ a, c.parse tokens { start := label, beam := 0, maxSteps := none } = .ok a := by
  have hplain : IsPlainName label := hnames.plain _ (Ruleset.mem_nonterminals.mp hlabel)
  rw [parse_of_no_unary (unaryRules_of_toNormalForm hc) ht rfl rfl,
    exists_isDerivation_iff (fun _ _ => body_of_toNormalForm hc) ht, (rules_of_toNormalForm hc).2,
    Ruleset.yields_normalForm_iff hnames hplain]

/-- A word beside labels, and labels that rewrite each other. -/
def cyclicRules : Ruleset ℚ :=
  [{ head := "S", body := [.nonterminal "A", .terminal "and", .nonterminal "B"], weight := 1 },
    .unary "A" "B" (1 / 2), .unary "B" "A" (1 / 2),
    .lexical "A" "x" (1 / 2), .lexical "B" "y" (1 / 2)]

/-- The grammar of two lists of words that share them, with a word between. -/
def cyclic : Grammar ℚ where
  start := "S"
  rules := cyclicRules
  index := .ofRules cyclicRules
  rules_ne_nil := List.cons_ne_nil _ _
  rules_valid := by decide +kernel
  index_eq := rfl

theorem plainNames_cyclicRules : cyclicRules.PlainNames where
  plain := by decide +kernel
  apart := by decide +kernel

theorem exists_toNormalForm_cyclic : ∃ c, cyclic.toNormalForm = .ok c := by
  have hvalid : cyclicRules.validate .positiveProbabilities = .ok () :=
    Ruleset.validate_eq_ok_iff.mpr (by decide +kernel)
  have hnormal : cyclicRules.normalForm.fault? .probabilities = none := by decide +kernel
  exact exists_toNormalForm (g := cyclic) hvalid (by decide +kernel) hnormal

/-- Each of the labels on a cycle has the words of the other. -/
theorem yields_cyclicRules : Yields cyclicRules [.nonterminal "S"] ["y", "And", "x"] := by
  have hcase : Text.lowerCase "and" = Text.lowerCase "And" := by decide +kernel
  have hS : cyclicRules.Has "S" [.nonterminal "A", .terminal "and", .nonterminal "B"] := by
    decide +kernel
  have hAB : cyclicRules.Has "A" [.nonterminal "B"] := by decide +kernel
  have hBA : cyclicRules.Has "B" [.nonterminal "A"] := by decide +kernel
  have hA : cyclicRules.Has "A" [.terminal "x"] := by decide +kernel
  have hB : cyclicRules.Has "B" [.terminal "y"] := by decide +kernel
  have hy : Yields cyclicRules [.nonterminal "A"] ["y"] :=
    Yields.label_iff.mpr ⟨_, hAB, Yields.label_iff.mpr ⟨_, hB, .word rfl .nil⟩⟩
  have hx : Yields cyclicRules [.nonterminal "B"] ["x"] :=
    Yields.label_iff.mpr ⟨_, hBA, Yields.label_iff.mpr ⟨_, hA, .word rfl .nil⟩⟩
  exact Yields.label_iff.mpr ⟨_, hS, Yields.cons_iff.mpr ⟨["y"], _, rfl, hy, .word hcase hx⟩⟩

/-- The grammar in normal form parses across a cycle that it no longer has. -/
theorem parse_toNormalForm_cyclic :
    ∃ c, cyclic.toNormalForm = .ok c ∧
      ∃ a, c.parse ["y", "And", "x"] { start := "S", beam := 0, maxSteps := none } = .ok a := by
  obtain ⟨c, hc⟩ := exists_toNormalForm_cyclic
  have hlabel : "S" ∈ cyclicRules.nonterminals := by decide +kernel
  exact ⟨c, hc, (yields_iff_parse_toNormalForm hc plainNames_cyclicRules hlabel
    (List.cons_ne_nil _ _)).mp yields_cyclicRules⟩

end Grammar

end Constituency
