import Constituency.Chart.Parsing
import Constituency.Proofs.Chart.FillInduction
import Constituency.Proofs.Grammar.Lookups

/-!
# Charts that are always complete

A closure can go on forever only through unary rules. A grammar without them closes every cell as it
is, so that without a limit on the steps every list of tokens has a chart. In any case nothing but
a limit can be exhausted: without one, whatever comes to an end ends with a chart.
-/
namespace Constituency

variable {α σ : Type} [Weight α] [Score σ] [Logarithm α σ] {g : Grammar α}

/-- Where there are no unary rules, working off an analysis drops it. -/
theorem Closure.step_of_no_unary (hg : ∀ label, g.unaryRules label = []) {c : Closure α}
    {child : Analysis α} {rest : List (Analysis α)} (hp : c.pending = child :: rest) :
    c.step g = { c with pending := rest } := by
  simp only [Closure.step, hp, hg, List.foldl_nil, ite_self]

/-- Without unary rules a closure ends, and changes nothing. -/
theorem Closure.run_of_no_unary (hg : ∀ label, g.unaryRules label = []) (c : Closure α) :
    c.run g none = some (.ok { c with pending := [] }) := by
  obtain ⟨cell, pending, used⟩ := c
  induction pending with
  | nil => rw [Closure.run]; rfl
  | cons child rest ih =>
    rw [Closure.run]
    simp only [List.isEmpty_cons, Bool.false_eq_true, if_false, exceeds_none]
    rw [Closure.step_of_no_unary hg rfl]
    exact ih

namespace Chart

theorem fillSpan_of_no_unary (hg : ∀ label, g.unaryRules label = []) (tokens : Array String)
    (beam : Nat) (progress : Progress α) (span : Nat × Nat) :
    ∃ next, (fillSpan g tokens beam none progress span).run = some (.ok next) := by
  simp only [fillSpan, exceeds_none, Bool.false_eq_true, if_false, Closure.run_of_no_unary hg]
  exact ⟨_, rfl⟩

end Chart

/-! ### Nothing is exhausted without a limit -/

theorem Closure.run_ne_error (c : Closure α) : c.run g none ≠ some (.error {}) := by
  have key : ∀ (c : Closure α) (r : Except Exhausted (Closure α)), c.run g none = some r →
      r ≠ .error {} := by
    apply Closure.run.partial_correctness
    intro run ih c r hr
    by_cases hp : c.pending = []
    · simp [hp] at hr
      subst hr
      simp
    · simp only [List.isEmpty_iff, hp, if_false, exceeds_none, Bool.false_eq_true] at hr
      exact ih _ _ hr
  exact fun h => key c _ h rfl

namespace Chart

theorem fillSpan_ne_error (tokens : Array String) (beam : Nat) (progress : Progress α)
    (span : Nat × Nat) :
    (fillSpan g tokens beam none progress span).run ≠ some (.error {}) := by
  intro h
  simp only [fillSpan, exceeds_none, Bool.false_eq_true, if_false, ExceptT.run_bind] at h
  obtain ⟨r, hr, h⟩ := Option.bind_eq_some_iff.mp h
  cases r with
  | error e => exact Closure.run_ne_error _ hr
  | ok closed => cases h

theorem foldlM_fillSpan_ne_error (tokens : Array String) (beam : Nat) (spans : List (Nat × Nat))
    (progress : Progress α) :
    (spans.foldlM (fillSpan g tokens beam none) progress).run ≠ some (.error {}) := by
  induction spans generalizing progress with
  | nil => exact fun h => by cases h
  | cons span spans ih =>
    intro h
    rw [List.foldlM_cons, ExceptT.run_bind] at h
    obtain ⟨r, hr, h⟩ := Option.bind_eq_some_iff.mp h
    cases r with
    | error e => exact fillSpan_ne_error tokens beam progress span hr
    | ok next => exact ih next h

end Chart

namespace Grammar

/-- Without a limit, what comes to an end ends with a chart. -/
theorem exists_chart_of_ne_none {tokens : List String} {options : ParseOptions}
    (ht : tokens ≠ []) (hlimit : options.maxSteps = none) (h : g.chart? tokens options ≠ none) :
    ∃ chart, g.chart tokens options = .ok chart := by
  have hnone : options.limit = none := by rw [ParseOptions.limit, hlimit]; rfl
  have hfill := Chart.foldlM_fillSpan_ne_error (g := g) tokens.toArray options.beam
    (Chart.spans tokens.toArray.size) { chart := .empty tokens.toArray.size, used := 0, built := 0 }
  rw [← hnone] at hfill
  change (Chart.fill g tokens.toArray options.beam options.limit).run ≠ _ at hfill
  unfold chart
  unfold chart? at h ⊢
  match hr : (Chart.fill g tokens.toArray options.beam options.limit).run with
  | none => simp [ht, hr] at h
  | some (.error e) => exact absurd hr hfill
  | some (.ok progress) => exact ⟨progress.chart, by simp [ht]⟩

/-- What is filled is the chart that is returned. -/
theorem chart_of_fill {tokens : List String} {options : ParseOptions} {progress : Chart.Progress α}
    (ht : tokens ≠ [])
    (hfill : (Chart.fill g tokens.toArray options.beam options.limit).run = some (.ok progress)) :
    g.chart tokens options = .ok progress.chart := by
  simp [chart, chart?, ht, hfill]

/-- Without unary rules and without a limit there is a chart of every list of tokens. -/
theorem exists_chart (hg : ∀ label, g.unaryRules label = []) (tokens : List String)
    (ht : tokens ≠ []) (options : ParseOptions) (hlimit : options.maxSteps = none) :
    ∃ chart, g.chart tokens options = .ok chart := by
  have hfills : Chart.Fills g tokens.toArray options.beam none fun _ _ _ => True := by
    simp [Chart.Fills]
  obtain ⟨progress, hfill⟩ := Chart.exists_fill hfills fun {_ _ span progress} _ _ =>
    Chart.fillSpan_of_no_unary hg tokens.toArray options.beam progress span
  refine ⟨progress.chart, chart_of_fill ht ?_⟩
  rw [ParseOptions.limit, hlimit]
  exact hfill

end Grammar

end Constituency
