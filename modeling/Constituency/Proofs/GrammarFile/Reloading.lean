import Constituency.Proofs.Chart.Agreement
import Constituency.Proofs.GrammarFile.Rereading

/-!
# Grammars that are written and read again

The text of a grammar has the rules in the order of heads, and the start label of a grammar that is
read is the head of its first rule. So a grammar that is written and read again starts with the
least head, whatever its start label was before. Apart from that nothing changes for a parser: with
the same root it finds the same scores.
-/
namespace Constituency

open GrammarFile

namespace Grammar

variable {α σ : Type} [Weight α] [Score σ] [Logarithm α σ] {g h : Grammar α}

/-- The score of a parse is the score that the chart holds for the root. -/
theorem map_parse_of_chart {tokens : List String} {options : ParseOptions} {chart : Chart α}
    (hchart : g.chart tokens options = .ok chart) :
    (g.parse tokens options).map (·.score) =
      match (chart.cell 0 (tokens.length - 1)).score? options.start with
      | some s => .ok s
      | none => .error (.noParse options.start tokens.length) := by
  obtain ⟨-, progress, hfill, rfl⟩ := fill_of_chart hchart
  have hlength : progress.chart.length = tokens.length := (Chart.grown_of_fill hfill).1
  rw [parse_of_chart hchart hlength, Cell.score?, Chart.best?]
  cases (progress.chart.cell 0 (tokens.length - 1))[options.start]? <;> rfl

/-- Whether the parser comes to an end. -/
def Ends (g : Grammar α) (tokens : List String) (options : ParseOptions) : Prop :=
  g.chart? tokens options ≠ none

/-- Grammars with the same rules give every list of tokens the same score, or the same error. -/
theorem SameRules.map_parse [LinearScore σ] (hrules : g.SameRules h) {tokens : List String}
    {options : ParseOptions} (hlimit : options.maxSteps = none) (hg : g.Ends tokens options)
    (hh : h.Ends tokens options) :
    (g.parse tokens options).map (·.score) = (h.parse tokens options).map (·.score) := by
  by_cases ht : tokens = []
  · simp [parse, chart, chart?, ht]
  · obtain ⟨chart, hchart⟩ := exists_chart_of_ne_none ht hlimit hg
    obtain ⟨chart', hchart'⟩ := exists_chart_of_ne_none ht hlimit hh
    have hpos : 0 < tokens.length := List.length_pos_iff.mpr ht
    have hroot := hrules.agrees hchart hchart' (Nat.zero_le (tokens.length - 1)) (by omega)
    rw [map_parse_of_chart hchart, map_parse_of_chart hchart', hroot options.start]

theorem ends_of_noGain [TotalScore σ] (hg : g.NoGain) (tokens : List String)
    {options : ParseOptions} (hlimit : options.maxSteps = none) : g.Ends tokens options := by
  by_cases ht : tokens = []
  · simp [Ends, chart?, ht]
  · obtain ⟨chart, hchart⟩ := exists_chart_of_noGain hg ht hlimit
    intro hnone
    rw [Grammar.chart, hnone] at hchart
    cases hchart

/-- The grammar of the rules in the order of heads starts with the least head. -/
theorem start_eq_iff {g h : Grammar α} (hg : ofRules g.rules = .ok g)
    (hh : ofRules g.rules.inHeadOrder = .ok h) :
    h.start = g.start ↔ ∀ rule ∈ g.rules, g.start ≤ rule.head := by
  obtain ⟨first, hfirst, hstart⟩ := Option.map_eq_some_iff.mp (eq_of_ofRules hg).2
  obtain ⟨least, hleast, hstart'⟩ := Option.map_eq_some_iff.mp (eq_of_ofRules hh).2
  have hmem : first ∈ g.rules := List.mem_of_mem_head? hfirst
  have hmem' : least ∈ g.rules :=
    (Ruleset.inHeadOrder_perm g.rules).mem_iff.mp (List.mem_of_mem_head? hleast)
  rw [← hstart, ← hstart']
  constructor
  · intro heq rule hr
    exact heq ▸ Ruleset.head_le_of_inHeadOrder hleast hr
  · intro hle
    exact le_antisymm (Ruleset.head_le_of_inHeadOrder hleast hmem) (hle least hmem')

end Grammar

namespace GrammarFile

variable {α σ : Type} [Weight α] [DecimalText α] [BinaryText α] [Score σ] [Logarithm α σ]

/-- A grammar that is read from a text, written and read again starts with the least of its heads.
With the same root it parses as before: where both parsers come to an end, they give the same score
or the same error, and they do come to an end if no unary rule has a weight above one. -/
theorem exists_reload [LinearScore σ] [LawfulLogarithm α] (hnumerals : UnsignedNumerals α)
    {source : String} {g : Grammar α} (hg : grammar source = .ok g) (hlines : g.OnLines)
    (hback : ∀ rule ∈ g.rules, ReadsBack rule.weight) :
    ∃ h : Grammar α, grammar g.text = .ok h ∧
      (h.start = g.start ↔ ∀ rule ∈ g.rules, g.start ≤ rule.head) ∧
      ∀ (tokens : List String) (options : ParseOptions), options.maxSteps = none →
        (g.Ends tokens options → h.Ends tokens options →
          (g.parse tokens options).map (·.score) = (h.parse tokens options).map (·.score)) ∧
        ((∀ rule ∈ g.rules, rule.unaryChild? ≠ none → rule.weight ≤ 1) →
          g.Ends tokens options ∧ h.Ends tokens options) := by
  obtain ⟨hcounts, hof⟩ := of_grammar_eq_ok hg
  have hread := isUnsigned_of_counts hnumerals hcounts
  obtain ⟨h, hgrammar, hh⟩ := exists_grammar_text hlines
    (fun rule hr => ⟨(hread rule hr).1, hback rule hr, (hread rule hr).2⟩)
    (isFinite_of_counts hcounts)
  obtain ⟨hrules, -⟩ := Grammar.eq_of_ofRules hh
  have hmem : ∀ rule, rule ∈ h.rules ↔ rule ∈ g.rules := by
    intro rule
    rw [hrules]
    exact (Ruleset.inHeadOrder_perm g.rules).mem_iff
  have hsame : g.SameRules h := fun rule => (hmem rule).symm
  refine ⟨h, hgrammar, Grammar.start_eq_iff hof hh, fun tokens options hlimit => ⟨?_, ?_⟩⟩
  · exact hsame.map_parse hlimit
  · intro hone
    have hone' : ∀ rule ∈ h.rules, rule.unaryChild? ≠ none → rule.weight ≤ 1 :=
      fun rule hr => hone rule ((hmem rule).mp hr)
    exact ⟨Grammar.ends_of_noGain (Grammar.noGain_of_weight_le_one hone) tokens hlimit,
      Grammar.ends_of_noGain (Grammar.noGain_of_weight_le_one hone') tokens hlimit⟩

/-- A rule that is listed last has the least head, and two labels rewrite each other. -/
def turnedRules : Ruleset ℚ :=
  [.unary "S" "A" 1, .lexical "S" "x" 1, .unary "A" "S" 1]

/-- With the root `S` the grammar parses a word as before, across a cycle. -/
theorem exists_reload_turned :
    ∃ g h : Grammar ℚ, grammar turnedRules.text = .ok g ∧ grammar g.text = .ok h ∧
      (g.parse ["x"] { start := "S", beam := 0, maxSteps := none }).map (·.score) =
        (h.parse ["x"] { start := "S", beam := 0, maxSteps := none }).map (·.score) := by
  have hone : ∀ rule ∈ turnedRules, rule.weight = 1 ∧ rule.language = none := by decide +kernel
  obtain ⟨g, hg, hof, hwritable⟩ := exists_grammar_of_ones (by decide : turnedRules ≠ [])
    (by decide +kernel) hone
  have hlines : g.OnLines := Grammar.onLines_of_ofRules hof (by decide +kernel)
  have hweights : ∀ rule ∈ g.rules, rule.unaryChild? ≠ none → rule.weight ≤ 1 := by
    rw [(Grammar.eq_of_ofRules hof).1]
    exact fun rule hr _ => le_of_eq (hone rule hr).1
  obtain ⟨h, hgrammar, -, hparses⟩ := exists_reload unsignedNumerals_rat hg hlines
    fun rule hr => (hwritable rule hr).readsBack
  obtain ⟨hscores, hends⟩ := hparses ["x"] { start := "S", beam := 0, maxSteps := none } rfl
  obtain ⟨hgends, hhends⟩ := hends hweights
  exact ⟨g, h, hg, hgrammar, hscores hgends hhends⟩

/-! ### A start label that is lost -/

/-- The first rule does not have the least head. -/
def lateRules : Ruleset ℚ :=
  [.lexical "S" "x" 1, .lexical "A" "y" 1]

/-- A grammar of lexical rules parses a word exactly if one of its rules has it. -/
theorem parse_lateRules {g : Grammar ℚ} (hrules : ∀ rule, rule ∈ g.rules ↔ rule ∈ lateRules)
    (root : String) :
    (∃ a, g.parse ["x"] { start := root, beam := 0, maxSteps := none } = .ok a) ↔ root = "S" := by
  have hbodies : ∀ rule ∈ lateRules, (rule.head = "S" ∧ rule.body = [.terminal "x"]) ∨
      (rule.head = "A" ∧ rule.body = [.terminal "y"]) := by decide +kernel
  have hunary : ∀ label, g.unaryRules label = [] := by
    intro label
    rw [List.eq_nil_iff_forall_not_mem]
    intro rule hr
    obtain ⟨hmem, hbody⟩ := Grammar.mem_unaryRules.mp hr
    rcases hbodies rule ((hrules rule).mp hmem) with ⟨-, h⟩ | ⟨-, h⟩ <;> simp [h] at hbody
  rw [Grammar.parse_of_no_unary hunary (List.cons_ne_nil "x" []) rfl rfl]
  constructor
  · rintro ⟨tree, hlicensed, rfl, -, -⟩
    cases tree with
    | lexical rule token position =>
      obtain ⟨hmem, htoken, word, hbody, hword⟩ := Tree.licensed_lexical.mp hlicensed
      rcases hbodies rule ((hrules rule).mp hmem) with ⟨hhead, -⟩ | ⟨-, h⟩
      · exact hhead
      · obtain rfl : "y" = word := by simpa [h] using hbody
        obtain rfl : token = "x" := by simpa using List.mem_of_getElem? htoken
        exact absurd hword (by decide +kernel)
    | unary rule child =>
      obtain ⟨⟨hmem, hbody⟩, -⟩ := Tree.licensed_unary.mp hlicensed
      rcases hbodies rule ((hrules rule).mp hmem) with ⟨-, h⟩ | ⟨-, h⟩ <;> simp [h] at hbody
    | binary rule left right =>
      obtain ⟨⟨hmem, hbody, -⟩, -⟩ := Tree.licensed_binary.mp hlicensed
      rcases hbodies rule ((hrules rule).mp hmem) with ⟨-, h⟩ | ⟨-, h⟩ <;> simp [h] at hbody
  · rintro rfl
    have hmem : .lexical "S" "x" 1 ∈ g.rules := (hrules _).mpr List.mem_cons_self
    exact ⟨.lexical (.lexical "S" "x" 1) "x" 0,
      Tree.licensed_lexical.mpr ⟨hmem, rfl, "x", rfl, rfl⟩, rfl, rfl, rfl⟩

/-- Reading a written grammar again can lose its start label, and with it what the grammar
parses. -/
theorem exists_start_lost :
    ∃ g h : Grammar ℚ, grammar lateRules.text = .ok g ∧ g.OnLines ∧ grammar g.text = .ok h ∧
      h.start ≠ g.start ∧
      (∃ a, g.parse ["x"] { start := g.start, beam := 0, maxSteps := none } = .ok a) ∧
      ¬ ∃ a, h.parse ["x"] { start := h.start, beam := 0, maxSteps := none } = .ok a := by
  obtain ⟨g, hg, hof, hwritable⟩ := exists_grammar_of_ones (by decide : lateRules ≠ [])
    (by decide +kernel) (by decide +kernel)
  obtain ⟨hrules, hstart⟩ := Grammar.eq_of_ofRules hof
  have hroot : g.start = "S" := (Option.some.inj hstart).symm
  have hlines : g.OnLines := Grammar.onLines_of_ofRules hof (by decide +kernel)
  obtain ⟨h, hgrammar, hh⟩ := exists_grammar_text hlines hwritable fun _ _ => rfl
  have hlost : h.start ≠ g.start := by
    intro heq
    have hmem : .lexical "A" "y" 1 ∈ g.rules := by
      rw [hrules]
      exact List.mem_cons_of_mem _ List.mem_cons_self
    have hle := (Grammar.start_eq_iff (hrules ▸ hof) hh).mp heq _ hmem
    rw [hroot] at hle
    exact absurd hle (by decide +kernel)
  have hmem : ∀ rule, rule ∈ h.rules ↔ rule ∈ lateRules := by
    intro rule
    rw [(Grammar.eq_of_ofRules hh).1, (Ruleset.inHeadOrder_perm g.rules).mem_iff, hrules]
  refine ⟨g, h, hg, hlines, hgrammar, hlost, ?_, ?_⟩
  · exact (parse_lateRules (fun rule => by rw [hrules]) _).mpr hroot
  · rw [parse_lateRules hmem, ← hroot]
    exact hlost

end GrammarFile

end Constituency
