import Constituency.Proofs.Chart.Agreement

/-!
# A beam only loses

What a beam drops from one cell can change every longer span: other analyses are built there, or
none. The cell that a chart has without a beam covers the pruned one all the same. This holds of a
span once it holds of all shorter ones, since a chart without a beam drops nothing in between.
-/
namespace Constituency

variable {α σ : Type} [Score σ] [Logarithm α σ]

theorem Cell.CoveredBy.prune {cell other : Cell α} (h : cell.CoveredBy other) (beam : Nat) :
    (cell.prune beam).CoveredBy other :=
  Cell.Every.prune h beam

variable [Weight α] [LawfulScore σ] {g g' : Grammar α} {tokens : List String} {beam : Nat}
  {limit limit' : Option Nat} {first last : Nat} {cell : Cell α}

/-- Whatever the beam of a chart, the chart without a beam covers its cells. -/
theorem Chart.Grown.coveredBy_exact (hrules : g.SameRules g')
    (h : Grown g tokens.toArray beam limit first last cell) :
    ∀ {exact}, Grown g' tokens.toArray 0 limit' first last exact → cell.CoveredBy exact := by
  induction h with
  | fill hle hlt shorter hrun ih =>
    intro exact h'
    cases h' with
    | fill _ _ shorter' hrun' =>
      -- Nothing is pruned on the right, so that covering the closure covers its cell.
      rw [Cell.prune_zero]
      refine (covered_of_runs hrules (fun i j hij hj hlen => ?_) hle hlt hrun hrun').prune beam
      exact ⟨ih i j hij hj hlen (shorter' i j hij hj hlen), (shorter' i j hij hj hlen).every⟩

namespace Grammar

variable {options : ParseOptions} {chart exact : Chart α}

theorem coveredBy_exact_of_chart (h : g.chart tokens options = .ok chart)
    (hexact : g.chart tokens { options with beam := 0 } = .ok exact) :
    chart.length = tokens.length ∧ exact.length = tokens.length ∧
      ∀ first last, first ≤ last → last < tokens.length →
        (chart.cell first last).CoveredBy (exact.cell first last) := by
  obtain ⟨-, progress, hfill, rfl⟩ := fill_of_chart h
  obtain ⟨-, progress', hfill', rfl⟩ := fill_of_chart hexact
  obtain ⟨hlength, hgrown⟩ := Chart.grown_of_fill hfill
  obtain ⟨hlength', hgrown'⟩ := Chart.grown_of_fill hfill'
  exact ⟨hlength, hlength', fun first last hle hlt =>
    (hgrown first last hle hlt).coveredBy_exact (fun _ => Iff.rfl) (hgrown' first last hle hlt)⟩

/-- Whatever a chart with a beam holds, the one without a beam holds something for the same label
that is as good. So a parse with a beam is never better than the one without, and fails if that
fails. -/
theorem chart_beam_le (g : Grammar α) (tokens : List String) (options : ParseOptions)
    {chart exact : Chart α} (h : g.chart tokens options = .ok chart)
    (hexact : g.chart tokens { options with beam := 0 } = .ok exact) :
    (∀ first last label a, chart.best? label first last = some a →
      ∃ b, exact.best? label first last = some b ∧ a.score ≤ b.score) ∧
    (∀ a, g.parse tokens options = .ok a →
      ∃ b, g.parse tokens { options with beam := 0 } = .ok b ∧ a.score ≤ b.score) ∧
    (g.parse tokens { options with beam := 0 } = .error (.noParse options.start tokens.length) →
      g.parse tokens options = .error (.noParse options.start tokens.length)) := by
  obtain ⟨hlength, hlength', hcover⟩ := coveredBy_exact_of_chart h hexact
  have hbest : ∀ first last label a, chart.best? label first last = some a →
      ∃ b, exact.best? label first last = some b ∧ a.score ≤ b.score := by
    intro first last label a ha
    obtain ⟨hle, hlt⟩ := Chart.span_of_best? ha
    obtain ⟨rfl, hreaches⟩ := hcover first last hle (hlength ▸ hlt) label a ha
    exact hreaches
  refine ⟨hbest, fun a ha => ?_, fun hnone => ?_⟩
  · obtain ⟨b, hb, hscore⟩ := hbest _ _ _ a ((parse_eq_ok_iff h hlength).mp ha)
    exact ⟨b, (parse_eq_ok_iff hexact hlength').mpr hb, hscore⟩
  · refine (parse_eq_noParse_iff h hlength).mpr fun ⟨a, ha⟩ => ?_
    obtain ⟨b, hb, -⟩ := hbest _ _ _ a ha
    exact (parse_eq_noParse_iff hexact hlength').mp hnone ⟨b, hb⟩

/-- Of the two labels of a word, which rewrite each other, the beam leaves one. -/
theorem chart_beam_le_cyclic :
    ∃ chart exact, cyclic.chart ["x"] { beam := 1 } = .ok chart ∧
      cyclic.chart ["x"] { beam := 0 } = .ok exact ∧
      ∀ first last label a, chart.best? label first last = some a →
        ∃ b, exact.best? label first last = some b ∧ a.score ≤ b.score := by
  have hone : ∀ rule ∈ cyclicRules, rule.weight ≤ 1 := by decide +kernel
  have hgain : cyclic.NoGain := noGain_of_weight_le_one fun rule hr _ => hone rule hr
  have hchart : ∀ beam, ∃ chart, cyclic.chart ["x"] { beam } = .ok chart :=
    fun _ => exists_chart_of_noGain hgain (List.cons_ne_nil "x" []) rfl
  obtain ⟨chart, h⟩ := hchart 1
  obtain ⟨exact, hexact⟩ := hchart 0
  exact ⟨chart, exact, h, hexact, (chart_beam_le cyclic ["x"] { beam := 1 } h hexact).1⟩

end Grammar

end Constituency
