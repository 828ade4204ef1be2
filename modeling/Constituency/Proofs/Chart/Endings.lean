import Constituency.Proofs.Chart.Limits
import Constituency.Proofs.Chart.Termination
import Constituency.Proofs.Language.Preservation

/-!
# When a chart is complete or cut off

A closure is the only part of a chart that may go on forever. It has an outcome exactly if finitely
many steps lead to one (`Closure.Ends`), which a limit enforces whatever the rules are. Without a
limit it is enough that no unary rule has a weight above one. The scores may then have any total
order in which such a rule raises no score; they need not be sums that the order respects, and there
may be infinitely many of them.
-/
namespace Constituency

variable {α σ : Type} [Weight α] [Score σ] [Logarithm α σ]

namespace Closure

/-- A closure that comes to an end after finitely many steps, and what it ends with. -/
inductive Ends (g : Grammar α) (limit : Option Nat) :
    Closure α → Except Exhausted (Closure α) → Prop
  | idle {c : Closure α} (hp : c.pending = []) : Ends g limit c (.ok c)
  | cutOff {c : Closure α} (hp : c.pending ≠ []) (hl : exceeds limit (c.step g).used = true) :
      Ends g limit c (.error {})
  | step {c : Closure α} {r : Except Exhausted (Closure α)} (hp : c.pending ≠ [])
      (hl : exceeds limit (c.step g).used = false) (hrest : Ends g limit (c.step g) r) :
      Ends g limit c r

/-- The outcomes of closures are those that finitely many steps lead to. -/
theorem run_eq_some_iff {g : Grammar α} {limit : Option Nat} {c : Closure α}
    {r : Except Exhausted (Closure α)} : c.run g limit = some r ↔ Ends g limit c r := by
  constructor
  · revert c r
    apply run.partial_correctness
    intro run ih c r hr
    by_cases hp : c.pending = []
    · simp only [hp, List.isEmpty_nil, if_true, Option.some.injEq] at hr
      exact hr ▸ .idle hp
    · cases hl : exceeds limit (c.step g).used with
      | true =>
        simp only [List.isEmpty_iff, hp, hl, if_false, if_true, Option.some.injEq] at hr
        exact hr ▸ .cutOff hp hl
      | false =>
        simp only [List.isEmpty_iff, hp, hl, if_false, Bool.false_eq_true] at hr
        exact .step hp hl (ih _ _ hr)
  · intro h
    induction h with
    | idle hp => rw [run]; simp [hp]
    | cutOff hp hl => rw [run]; simp [hp, hl]
    | step hp hl _ ih => rw [run]; simpa [hp, hl] using ih

end Closure

namespace Grammar

variable {g : Grammar α} {tokens : List String} {options : ParseOptions} {chart : Chart α}

/-- A chart whose cells can all be filled or cut off has an outcome. -/
theorem exists_chart?_of_fill
    (h : (Chart.fill g tokens.toArray options.beam options.limit).run ≠ none) :
    ∃ result, g.chart? tokens options = some result := by
  obtain ⟨r, hr⟩ := Option.ne_none_iff_exists'.mp h
  unfold chart?
  split
  · exact ⟨_, rfl⟩
  · rw [hr]
    exact ⟨_, rfl⟩

/-- Only a chart that comes to an end is returned. -/
theorem chart?_of_chart (h : g.chart tokens options = .ok chart) :
    g.chart? tokens options = some (.ok chart) := by
  unfold Grammar.chart at h
  cases hc : g.chart? tokens options with
  | none =>
    rw [hc] at h
    cases h
  | some result =>
    rw [hc] at h
    exact congrArg some h

/-- Under a limit a chart is complete or cut off, whatever the rules and their weights. Without one
it is complete if no unary rule has a weight above one, whatever cycles these rules form. -/
theorem chart?_ends (g : Grammar α) (tokens : List String) (options : ParseOptions) :
    (options.maxSteps ≠ none → ∃ result, g.chart? tokens options = some result) ∧
    (∀ [TotalScore σ] [LawfulLogarithm α], options.maxSteps = none →
      (∀ rule ∈ g.rules, rule.unaryChild? ≠ none → rule.weight ≤ 1) →
        ∃ result, g.chart? tokens options = some result ∧
          (tokens ≠ [] → ∃ chart, result = .ok chart)) := by
  constructor
  · intro hlimit
    obtain ⟨limit, hsome⟩ := Option.ne_none_iff_exists'.mp hlimit
    apply exists_chart?_of_fill
    rw [ParseOptions.limit, hsome]
    exact (Chart.metered_fill g tokens.toArray options.beam).ends limit.toNat
  · intro _ _ hlimit hweights
    by_cases ht : tokens = []
    · exact ⟨.error .emptyInput, by simp [chart?, ht], fun hne => absurd ht hne⟩
    · obtain ⟨chart, h⟩ := exists_chart_of_noGain (noGain_of_weight_le_one hweights) ht hlimit
      exact ⟨.ok chart, chart?_of_chart h, fun _ => ⟨chart, rfl⟩⟩

/-- Labels that rewrite each other do not keep a chart from its end, with a limit or without. -/
theorem chart?_ends_cyclic :
    (∃ result, cyclic.chart? ["x"] { maxSteps := some 2 } = some result) ∧
      ∃ result, cyclic.chart? ["x"] {} = some result ∧ ∃ chart, result = .ok chart := by
  have hone : ∀ rule ∈ cyclic.rules, rule.weight ≤ 1 := by decide +kernel
  obtain ⟨result, hresult, hchart⟩ :=
    (chart?_ends cyclic ["x"] {}).2 rfl fun rule hr _ => hone rule hr
  exact ⟨(chart?_ends cyclic ["x"] { maxSteps := some 2 }).1 (Option.some_ne_none 2),
    result, hresult, hchart (List.cons_ne_nil "x" [])⟩

end Grammar

end Constituency
