import Constituency.Proofs.Chart.Soundness

/-!
# Exactness of a chart without a beam

Without a beam a chart finds every derivation: for each label that has a derivation over a span it
holds an analysis, and with lawful scores no derivation has a better score. So a parse succeeds
exactly if the tokens have a derivation from the start label, and gives one that no other excels.
-/
namespace Constituency

variable {α σ : Type} [Weight α] [Score σ] [Logarithm α σ]

namespace Chart

/-- A cell holds derivations of its span only, and reaches all of them. -/
structure ExactCell (R : σ → σ → Prop) (g : Grammar α) (tokens : List String) (first last : Nat)
    (cell : Cell α) : Prop where
  derives : cell.Every (Derives g tokens first last)
  reaches : ∀ tree : Tree α, tree.Licensed g.rules tokens → tree.first = first →
    tree.last = last → cell.Reaches R tree.label tree.score

variable {R : σ → σ → Prop} {g : Grammar α} {tokens : List String} {chart : Chart α}

/-- What a span starts with reaches its derivations by lexical and binary rules. -/
theorem exists_starter (hR : Score.Comparison R) {first last : Nat}
    (hcells : ∀ i j, i ≤ j → j < tokens.length → j - i < last - first →
      ExactCell R g tokens i j (chart.cell i j)) {tree : Tree α}
    (htree : tree.Licensed g.rules tokens) (hfirst : tree.first = first) (hlast : tree.last = last)
    (hunary : ∀ rule child, tree ≠ .unary rule child) :
    ∃ a ∈ (starters g tokens.toArray chart first last).flatten,
      a.label = tree.label ∧ R tree.score a.score := by
  cases tree with
  | lexical rule token position =>
    obtain ⟨hmem, ht, word, hbody, hword⟩ := Tree.licensed_lexical.mp htree
    subst hfirst
    subst hlast
    have hrule := Grammar.mem_lexicalRules.mpr ⟨hmem, word, hbody, hword⟩
    exact ⟨.lexical rule token position, mem_starters_token.mpr ⟨token, ht, rule, hrule, rfl⟩,
      rfl, hR.refl _⟩
  | unary rule child => exact absurd rfl (hunary rule child)
  | binary rule left right =>
    obtain ⟨⟨hmem, hbody, hadj⟩, hleft, hright⟩ := Tree.licensed_binary.mp htree
    have hl := hleft.first_le_last
    have hr := hright.first_le_last
    have hlt := hright.last_lt
    simp only [Tree.first, Tree.last] at hfirst hlast
    have hlcell := hcells first left.last (by omega) (by omega) (by omega)
    have hrcell := hcells (left.last + 1) last (by omega) (by omega) (by omega)
    obtain ⟨l, hl, hlscore⟩ := hlcell.reaches left hleft hfirst rfl
    obtain ⟨r, hr, hrscore⟩ := hrcell.reaches right hright hadj.symm hlast
    have hrule : rule ∈ g.binaryRules l.label r.label := by
      rw [Grammar.mem_binaryRules, (hlcell.derives _ l hl).1, (hrcell.derives _ r hr).1]
      exact ⟨hmem, hbody⟩
    refine ⟨.binary rule l r, ?_, rfl, hR.add (hR.add (hR.refl _) hlscore) hrscore⟩
    exact (mem_starters_split (by omega)).mpr ⟨left.last, by omega, by omega, l,
      Cell.mem_values.mpr ⟨_, hl⟩, r, Cell.mem_values.mpr ⟨_, hr⟩, rule, hrule, rfl⟩

/-- A closure that leaves nothing to unary rules makes the cell of a span exact. -/
theorem fills_exactCell (hR : Score.Comparison R) {limit : Option Nat}
    (hsettled : ∀ (P : Analysis α → Prop) (cell : Cell α) (used : Nat) (closed : Closure α),
      cell.Every P → (Closure.start cell used).run g limit = some (.ok closed) →
        closed.cell.Settled R g) :
    Fills g tokens.toArray 0 limit (ExactCell R g tokens) := by
  intro chart first last used closed _ hle hlt hshorter hrun
  have hopened : (opened g tokens.toArray chart first last).Every (Derives g tokens first last) :=
    (Cell.every_empty _).foldl_offer fun a ha =>
      derives_starters (fun i j hij hj hlen => (hshorter i j hij hj hlen).derives) hle hlt ha
  have hclosed := hsettled _ _ _ _ hopened hrun
  rw [Cell.prune_zero]
  refine ⟨Closure.every_run (fun _ h rule hr => derives_unary h hr) hrun hopened, ?_⟩
  intro tree htree hfirst hlast
  induction tree with
  | unary rule child ih =>
    obtain ⟨hfits, hchild⟩ := Tree.licensed_unary.mp htree
    obtain ⟨a, ha, hscore⟩ := ih hchild hfirst hlast
    have hmade := hclosed child.label a ha rule (Grammar.mem_unaryRules.mpr hfits)
    exact hmade.mono hR (hR.add (hR.refl _) hscore)
  | lexical rule token position =>
    obtain ⟨a, ha, hlabel, hscore⟩ := exists_starter hR hshorter htree hfirst hlast
      (fun _ _ h => by cases h)
    rw [← hlabel]
    exact Closure.reaches_run hR hrun ((Cell.reaches_foldl_offer hR ∅ ha).mono hR hscore)
  | binary rule left right =>
    obtain ⟨a, ha, hlabel, hscore⟩ := exists_starter hR hshorter htree hfirst hlast
      (fun _ _ h => by cases h)
    rw [← hlabel]
    exact Closure.reaches_run hR hrun ((Cell.reaches_foldl_offer hR ∅ ha).mono hR hscore)

namespace ExactCell

variable {first last : Nat} {cell : Cell α} {label : String}

theorem exists_iff (h : ExactCell R g tokens first last cell) :
    (∃ a, cell[label]? = some a) ↔
      ∃ tree : Tree α, tree.IsDerivation g.rules tokens label first last := by
  constructor
  · rintro ⟨a, ha⟩
    obtain ⟨rfl, hderives⟩ := h.derives label a ha
    exact ⟨a.tree, hderives⟩
  · rintro ⟨tree, htree, rfl, hfirst, hlast⟩
    obtain ⟨a, ha, -⟩ := h.reaches tree htree hfirst hlast
    exact ⟨a, ha⟩

theorem isDerivation (h : ExactCell R g tokens first last cell) {a : Analysis α}
    (ha : cell[label]? = some a) : a.tree.IsDerivation g.rules tokens label first last := by
  obtain ⟨rfl, hderives⟩ := h.derives label a ha
  exact hderives

theorem compares (h : ExactCell R g tokens first last cell) {a : Analysis α}
    (ha : cell[label]? = some a) {tree : Tree α}
    (htree : tree.IsDerivation g.rules tokens label first last) : R tree.score a.score := by
  obtain ⟨htree, rfl, hfirst, hlast⟩ := htree
  obtain ⟨b, hb, hscore⟩ := h.reaches tree htree hfirst hlast
  rw [ha] at hb
  cases hb
  exact hscore

end ExactCell

end Chart

namespace Grammar

section Parse

variable {R : σ → σ → Prop} {g : Grammar α} {tokens : List String} {options : ParseOptions}
  {chart : Chart α}

/-- Without a beam every cell is exact, if closures leave nothing to unary rules. -/
theorem exactCell_of_chart (hR : Score.Comparison R)
    (hsettled : ∀ (P : Analysis α → Prop) (cell : Cell α) (used : Nat) (closed : Closure α),
      cell.Every P → (Closure.start cell used).run g options.limit = some (.ok closed) →
        closed.cell.Settled R g)
    (hbeam : options.beam = 0) (h : g.chart tokens options = .ok chart) :
    chart.length = tokens.length ∧ ∀ first last, first ≤ last → last < tokens.length →
      Chart.ExactCell R g tokens first last (chart.cell first last) := by
  obtain ⟨-, progress, hfill, rfl⟩ := fill_of_chart h
  rw [hbeam] at hfill
  exact Chart.fill_induction (Chart.fills_exactCell hR hsettled) hfill

/-- A parse gives what the chart holds for the start label over all tokens. -/
theorem parse_of_chart (h : g.chart tokens options = .ok chart)
    (hlength : chart.length = tokens.length) :
    g.parse tokens options =
      match chart.best? options.start 0 (tokens.length - 1) with
      | some a => .ok a
      | none => .error (.noParse options.start tokens.length) := by
  rw [parse, h, ← hlength]
  rfl

theorem parse_eq_ok_iff (h : g.chart tokens options = .ok chart)
    (hlength : chart.length = tokens.length) {a : Analysis α} :
    g.parse tokens options = .ok a ↔
      chart.best? options.start 0 (tokens.length - 1) = some a := by
  rw [parse_of_chart h hlength]
  cases chart.best? options.start 0 (tokens.length - 1) <;> simp

theorem parse_eq_noParse_iff (h : g.chart tokens options = .ok chart)
    (hlength : chart.length = tokens.length) :
    g.parse tokens options = .error (.noParse options.start tokens.length) ↔
      ¬ ∃ a, chart.best? options.start 0 (tokens.length - 1) = some a := by
  rw [parse_of_chart h hlength]
  cases chart.best? options.start 0 (tokens.length - 1) <;> simp

/-- The last token of a parse that has a chart. -/
theorem pred_length_lt_of_chart (h : g.chart tokens options = .ok chart) :
    tokens.length - 1 < tokens.length := by
  obtain ⟨hne, -⟩ := fill_of_chart h
  exact Nat.sub_lt (List.length_pos_iff.mpr hne) Nat.one_pos

end Parse

/-- An analysis of a span that no derivation of the span from its label excels. -/
def IsBest (g : Grammar α) (tokens : List String) (label : String) (first last : Nat)
    (a : Analysis α) : Prop :=
  a.tree.IsDerivation g.rules tokens label first last ∧
    ∀ tree : Tree α, tree.IsDerivation g.rules tokens label first last → tree.score ≤ a.score

/-- Without a beam a chart holds something for exactly the labels that derive a span, and what it
holds is best. A parse gives a best analysis exactly if the start label derives the tokens. -/
theorem chart_exact [LawfulScore σ] (g : Grammar α) (tokens : List String) (options : ParseOptions)
    (hbeam : options.beam = 0) {chart : Chart α} (h : g.chart tokens options = .ok chart) :
    (∀ first last, first ≤ last → last < tokens.length → ∀ label,
      ((∃ a, chart.best? label first last = some a) ↔
        ∃ tree : Tree α, tree.IsDerivation g.rules tokens label first last) ∧
      ∀ a, chart.best? label first last = some a → g.IsBest tokens label first last a) ∧
    ((∃ a, g.parse tokens options = .ok a) ↔
      ∃ tree : Tree α, tree.IsDerivation g.rules tokens options.start 0 (tokens.length - 1)) ∧
    (∀ a, g.parse tokens options = .ok a →
      g.IsBest tokens options.start 0 (tokens.length - 1) a) ∧
    (g.parse tokens options = .error (.noParse options.start tokens.length) ↔
      ¬ ∃ tree : Tree α,
        tree.IsDerivation g.rules tokens options.start 0 (tokens.length - 1)) := by
  obtain ⟨hlength, hcells⟩ := exactCell_of_chart Score.comparison_le
    (fun _ _ _ _ hcell hrun => Closure.settled_run hrun hcell) hbeam h
  have hroot := hcells 0 (tokens.length - 1) (Nat.zero_le _) (pred_length_lt_of_chart h)
  have hiff : (∃ a, chart.best? options.start 0 (tokens.length - 1) = some a) ↔
      ∃ tree : Tree α, tree.IsDerivation g.rules tokens options.start 0 (tokens.length - 1) :=
    hroot.exists_iff
  refine ⟨fun first last hle hlt label => ?_, ?_, fun a ha => ?_, ?_⟩
  · have hcell := hcells first last hle hlt
    exact ⟨hcell.exists_iff, fun a ha => ⟨hcell.isDerivation ha, fun _ ht => hcell.compares ha ht⟩⟩
  · simp only [parse_eq_ok_iff h hlength, hiff]
  · have hbest := (parse_eq_ok_iff h hlength).mp ha
    exact ⟨hroot.isDerivation hbest, fun _ ht => hroot.compares hbest ht⟩
  · rw [parse_eq_noParse_iff h hlength, hiff]

/-- One of the two derivations of three words. -/
theorem isDerivation_doubling :
    (Tree.binary (.binary "S" "S" "S" (1 / 4))
      (.binary (.binary "S" "S" "S" (1 / 4))
        (.lexical (.lexical "S" "a" (3 / 4)) "a" 0) (.lexical (.lexical "S" "a" (3 / 4)) "A" 1))
      (.lexical (.lexical "S" "a" (3 / 4)) "a" 2) : Tree ℚ).IsDerivation
        doubling.rules ["a", "A", "a"] "S" 0 2 := by
  have hbinary : .binary "S" "S" "S" (1 / 4) ∈ doubling.rules := List.mem_cons_self
  have hlexical : .lexical "S" "a" (3 / 4) ∈ doubling.rules :=
    List.mem_cons_of_mem _ List.mem_cons_self
  have hcase : Text.lowerCase "a" = Text.lowerCase "A" := by decide +kernel
  refine ⟨?_, rfl, rfl, rfl⟩
  simp only [Tree.licensed_binary, Tree.licensed_lexical, Tree.NodeFits]
  exact ⟨⟨hbinary, rfl, rfl⟩,
    ⟨⟨hbinary, rfl, rfl⟩, ⟨hlexical, rfl, "a", rfl, rfl⟩, hlexical, rfl, "a", rfl, hcase⟩,
    hlexical, rfl, "a", rfl, rfl⟩

/-- Three words, the second one spelled differently, have a best analysis. -/
theorem chart_exact_doubling :
    ∃ chart, doubling.chart ["a", "A", "a"] { beam := 0 } = .ok chart ∧
      ∃ a, doubling.parse ["a", "A", "a"] { beam := 0 } = .ok a ∧
        doubling.IsBest ["a", "A", "a"] "S" 0 2 a := by
  obtain ⟨chart, h⟩ := exists_chart unaryRules_doubling ["a", "A", "a"]
    (List.cons_ne_nil _ _) { beam := 0 } rfl
  obtain ⟨-, hparse, hbest, -⟩ := chart_exact doubling ["a", "A", "a"] { beam := 0 } rfl h
  obtain ⟨a, ha⟩ := hparse.mpr ⟨_, isDerivation_doubling⟩
  exact ⟨chart, h, a, ha, hbest a ha⟩

end Grammar

end Constituency
