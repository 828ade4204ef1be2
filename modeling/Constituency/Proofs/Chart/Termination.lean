import Constituency.Proofs.Chart.ClosureRuns
import Constituency.Proofs.Chart.Completion
import Constituency.Proofs.Chart.Soundness
import Constituency.Proofs.Grammar.Gains

/-!
# Closures that come to an end

If no cycle of unary rules gains, a closure accepts only analyses that unary rules make without
coming back to a label, and there are finitely many of these. None of them is accepted twice, since
the cell never gets worse; so with every step either fewer of them can still be accepted, or one
analysis less is waiting. Of scores no more is needed than that any two of them can be compared, and
this only of scores with a property that unary rules keep (`Grammar.Steady`).
-/
namespace Constituency

variable {α σ : Type} [Score σ] [Logarithm α σ]

/-! ### What a cell no longer accepts -/

namespace Cell

variable {cell : Cell α} {a b : Analysis α}

theorem accepts_eq_false_iff :
    cell.accepts a = false ↔ ∃ held, cell[a.label]? = some held ∧ a.score ≤ held.score := by
  unfold accepts
  cases cell[a.label]? <;> simp

theorem accepts_of_held (h : cell[a.label]? = some a) (ha : a.score ≤ a.score) :
    cell.accepts a = false :=
  accepts_eq_false_iff.mpr ⟨a, h, ha⟩

variable [NumberScore σ]

theorem accepts_of_le (h : cell.accepts b = false) (hlabel : b.label = a.label)
    (hle : a.score ≤ b.score) : cell.accepts a = false := by
  obtain ⟨held, hheld, hb⟩ := accepts_eq_false_iff.mp h
  exact accepts_eq_false_iff.mpr ⟨held, hlabel ▸ hheld, NumberScore.le_trans hle hb⟩

/-- What is not accepted is not accepted after further offers. -/
theorem accepts_offer (h : cell.accepts b = false) (ha : a.score ≤ a.score) :
    (cell.offer a).accepts b = false := by
  obtain ⟨held, hheld, hb⟩ := accepts_eq_false_iff.mp h
  rw [accepts_eq_false_iff, getElem?_offer]
  by_cases hc : cell.accepts a = true ∧ a.label = b.label
  · have hle : held.score ≤ a.score :=
      (NumberScore.le_total (NumberScore.refl_of_le hb).2 ha).resolve_right
        (not_le_of_accepts hc.1 (hc.2 ▸ hheld))
    exact ⟨a, if_pos hc, NumberScore.le_trans hb hle⟩
  · exact ⟨held, by rw [if_neg hc, hheld], hb⟩

theorem accepts_offer_self (cell : Cell α) (ha : a.score ≤ a.score) :
    (cell.offer a).accepts a = false := by
  by_cases h : cell.accepts a = true
  · exact accepts_of_held (by simp [getElem?_offer, h]) ha
  · exact accepts_offer (by simpa using h) ha

end Cell

/-! ### Finitely many analyses -/

namespace Grammar

variable [Weight α]

/-- An analysis and all that unary rules make of it with labels that are available, each of them
used once; every one with the labels that are available then. -/
def offshoots (g : Grammar α) (available : List String) (a : Analysis α) :
    List (Analysis α × List String) :=
  (a, available) :: (g.unaryRules a.label).flatMap fun rule =>
    if _h : rule.head ∈ available then
      offshoots g (Ruleset.leave rule.head available) (.unary rule a)
    else []
termination_by available.length
decreasing_by exact Ruleset.length_leave_lt (by assumption)

theorem self_mem_offshoots (g : Grammar α) (available : List String) (a : Analysis α) :
    (a, available) ∈ g.offshoots available a := by
  rw [offshoots]
  exact List.mem_cons_self

/-- An offshoot has offshoots of its own. -/
theorem unary_mem_offshoots {g : Grammar α} {available rest : List String} {a b : Analysis α}
    (ha : (a, rest) ∈ g.offshoots available b) {rule : Rule α} (hr : rule ∈ g.unaryRules a.label)
    (hhead : rule.head ∈ rest) :
    (.unary rule a, Ruleset.leave rule.head rest) ∈ g.offshoots available b := by
  fun_induction offshoots g available b with
  | case1 available b ih =>
    rcases List.mem_cons.mp ha with heq | ha
    · cases heq
      refine List.mem_cons_of_mem _ (List.mem_flatMap.mpr ⟨rule, hr, ?_⟩)
      rw [dif_pos hhead]
      exact self_mem_offshoots g _ _
    · obtain ⟨first, hfirst, ha⟩ := List.mem_flatMap.mp ha
      refine List.mem_cons_of_mem _ (List.mem_flatMap.mpr ⟨first, hfirst, ?_⟩)
      split at ha
      · rename_i hmem
        rw [dif_pos hmem]
        exact ih first hmem ha
      · cases ha

/-- The labels that unary rules can lead to. -/
def heads (g : Grammar α) : List String :=
  g.rules.map (·.head)

theorem head_mem_heads {g : Grammar α} {child : String} {rule : Rule α}
    (hr : rule ∈ g.unaryRules child) : rule.head ∈ g.heads :=
  List.mem_map_of_mem (mem_unaryRules.mp hr).1

/-- The offshoots of all analyses in a cell. -/
def pool (g : Grammar α) (cell : Cell α) : List (Analysis α × List String) :=
  cell.values.flatMap fun a => g.offshoots (Ruleset.leave a.label g.heads) a

/-- The offshoots that a cell still accepts. -/
def acceptable (pool : List (Analysis α × List String)) (cell : Cell α) :
    List (Analysis α × List String) :=
  pool.filter fun entry => cell.accepts entry.1

/-- Unary rules keep a property of scores that can be compared, and do not gain on them. -/
structure Steady (g : Grammar α) (N : σ → Prop) : Prop where
  refl : ∀ {s}, N s → s ≤ s
  unary : ∀ {s child rule}, N s → rule ∈ g.unaryRules child → N (Logarithm.log rule.weight + s)
  noGain : ∀ {label s t}, N s → g.Climbs label s label t → t ≤ s

/-- Where any two scores can be compared, it is enough that no cycle gains. -/
theorem NoGain.steady [TotalScore σ] {g : Grammar α} (hg : g.NoGain) :
    g.Steady fun _ : σ => True where
  refl _ := TotalScore.le_refl _
  unary _ _ := trivial
  noGain _ h := hg _ _ _ h

end Grammar

namespace Closure

variable [Weight α] {g : Grammar α} {pool : List (Analysis α × List String)} {N : σ → Prop}

/-- An offshoot all of whose used labels have scores that the cell holds, from which its score has
climbed; its score and these have a property. -/
def Trails (g : Grammar α) (N : σ → Prop) (pool : List (Analysis α × List String)) (cell : Cell α)
    (a : Analysis α) : Prop :=
  N a.score ∧ ∃ rest, (a, rest) ∈ pool ∧ ∀ label ∈ g.heads, label ∈ rest ∨
    ∃ b : Analysis α, b.label = label ∧ N b.score ∧ cell.accepts b = false ∧
      g.Climbs b.label b.score a.label a.score

/-- A list of offshoots that has the offshoots of each of them. -/
def Complete (g : Grammar α) (pool : List (Analysis α × List String)) : Prop :=
  ∀ a rest, (a, rest) ∈ pool → ∀ rule ∈ g.unaryRules a.label, rule.head ∈ rest →
    (.unary rule a, Ruleset.leave rule.head rest) ∈ pool

theorem complete_pool (g : Grammar α) (cell : Cell α) : Complete g (g.pool cell) := by
  intro a rest ha rule hr hhead
  obtain ⟨base, hbase, ha⟩ := List.mem_flatMap.mp ha
  exact List.mem_flatMap.mpr ⟨base, hbase, Grammar.unary_mem_offshoots ha hr hhead⟩

variable [NumberScore σ]

theorem Trails.offer {cell : Cell α} {a b : Analysis α} (h : Trails g N pool cell a)
    (hb : b.score ≤ b.score) : Trails g N pool (cell.offer b) a := by
  obtain ⟨hnumber, rest, hmem, hlabels⟩ := h
  refine ⟨hnumber, rest, hmem, fun label hl => (hlabels label hl).imp_right ?_⟩
  rintro ⟨c, hlabel, hc, haccepts, hclimbs⟩
  exact ⟨c, hlabel, hc, Cell.accepts_offer haccepts hb, hclimbs⟩

/-- What is accepted above an offshoot is an offshoot: a label used before would make it a round,
which gains nothing. -/
theorem Trails.unary (hg : g.Steady N) (hpool : Complete g pool) {cell : Cell α} {a : Analysis α}
    (h : Trails g N pool cell a) {rule : Rule α} (hr : rule ∈ g.unaryRules a.label)
    (haccepts : cell.accepts (.unary rule a) = true) :
    Trails g N pool (cell.offer (.unary rule a)) (.unary rule a) := by
  obtain ⟨hnumber, rest, hmem, hlabels⟩ := h
  have hunary : N (Analysis.unary rule a).score := hg.unary hnumber hr
  have hhead : rule.head ∈ rest := by
    rcases hlabels rule.head (Grammar.head_mem_heads hr) with
      hrest | ⟨b, hlabel, hb, hnot, hclimbs⟩
    · exact hrest
    · have hround : g.Climbs rule.head b.score rule.head (Logarithm.log rule.weight + a.score) :=
        (hlabel ▸ hclimbs).unary hr
      have hrefused := Cell.accepts_of_le (a := .unary rule a) hnot hlabel (hg.noGain hb hround)
      rw [hrefused] at haccepts
      cases haccepts
  refine ⟨hunary, _, hpool a rest hmem rule hr hhead, fun label hl => ?_⟩
  by_cases hsame : label = rule.head
  · exact .inr ⟨.unary rule a, hsame.symm, hunary, Cell.accepts_offer_self _ (hg.refl hunary),
      .refl⟩
  · rcases hlabels label hl with hrest | ⟨b, hlabel, hb, hnot, hclimbs⟩
    · exact .inl (by simp [Ruleset.leave, hrest, hsame])
    · exact .inr ⟨b, hlabel, hb, Cell.accepts_offer hnot (hg.refl hunary), hclimbs.unary hr⟩

/-- A closure in which only offshoots wait. -/
def Tracked (g : Grammar α) (N : σ → Prop) (pool : List (Analysis α × List String))
    (c : Closure α) : Prop :=
  ∀ a ∈ c.pending, Trails g N pool c.cell a

omit [NumberScore σ] in
theorem tracked_start (hg : g.Steady N) {cell : Cell α} (h : cell.Every fun a => N a.score)
    (used : Nat) : Tracked g N (g.pool cell) (start cell used) := by
  intro a ha
  have hvalue : a ∈ cell.values := List.mem_reverse.mp ha
  obtain ⟨key, hkey⟩ := Cell.mem_values.mp hvalue
  obtain ⟨hlabel, hnumber⟩ := h key a hkey
  have hheld : cell[a.label]? = some a := hlabel ▸ hkey
  refine ⟨hnumber, _, List.mem_flatMap.mpr ⟨a, hvalue, Grammar.self_mem_offshoots g _ a⟩,
    fun label hl => ?_⟩
  by_cases hsame : label = a.label
  · exact .inr ⟨a, hsame.symm, hnumber, Cell.accepts_of_held hheld (hg.refl hnumber), .refl⟩
  · exact .inl (by simp [Ruleset.leave, hl, hsame])

omit [Weight α] in
/-- An offshoot that is accepted is not accepted again, and nothing else becomes acceptable. -/
theorem length_acceptable_lt {cell : Cell α} {a : Analysis α} {rest : List String}
    (hmem : (a, rest) ∈ pool) (haccepts : cell.accepts a = true) (ha : a.score ≤ a.score) :
    (Grammar.acceptable pool (cell.offer a)).length < (Grammar.acceptable pool cell).length := by
  have hsub : Grammar.acceptable pool (cell.offer a) =
      (Grammar.acceptable pool cell).filter fun entry => (cell.offer a).accepts entry.1 := by
    rw [Grammar.acceptable, Grammar.acceptable, List.filter_filter]
    refine List.filter_congr fun entry _ => ?_
    cases hold : cell.accepts entry.1 with
    | true => simp
    | false => simp [Cell.accepts_offer hold ha]
  rw [hsub]
  refine List.length_filter_lt_length_iff_exists.mpr ⟨(a, rest), ?_, ?_⟩
  · exact List.mem_filter.mpr ⟨hmem, haccepts⟩
  · simp [Cell.accepts_offer_self cell ha]

/-- Applying rules to an offshoot lets offshoots wait only. If anything changes, then fewer of them
are acceptable afterwards. -/
theorem Tracked.foldl_apply (hg : g.Steady N) (hpool : Complete g pool) {c : Closure α}
    (h : Tracked g N pool c) {child : Analysis α} (hchild : Trails g N pool c.cell child)
    {rules : Ruleset α} (hrules : ∀ rule ∈ rules, rule ∈ g.unaryRules child.label) :
    Tracked g N pool (rules.foldl (apply child) c) ∧
      ((Grammar.acceptable pool (rules.foldl (apply child) c).cell).length <
          (Grammar.acceptable pool c.cell).length ∨
        (rules.foldl (apply child) c).cell = c.cell ∧
          (rules.foldl (apply child) c).pending = c.pending) := by
  induction rules generalizing c with
  | nil => exact ⟨h, .inr ⟨rfl, rfl⟩⟩
  | cons rule rules ih =>
    obtain ⟨hr, hrest⟩ := List.forall_mem_cons.mp hrules
    have hunary := hg.refl (hg.unary hchild.1 hr)
    rw [List.foldl_cons]
    by_cases haccepts : c.cell.accepts (.unary rule child) = true
    · have hmade := hchild.unary hg hpool hr haccepts
      have hfirst := let ⟨_, _, hmem, _⟩ := hmade; length_acceptable_lt hmem haccepts hunary
      rw [← cell_apply] at hfirst hmade
      have happly : Tracked g N pool (c.apply child rule) := by
        intro a ha
        rw [pending_apply, if_pos haccepts] at ha
        rcases List.mem_cons.mp ha with rfl | ha
        · exact hmade
        · rw [cell_apply]
          exact (h a ha).offer hunary
      obtain ⟨htracked, hless⟩ := ih happly (by rw [cell_apply]; exact hchild.offer hunary) hrest
      refine ⟨htracked, .inl ?_⟩
      rcases hless with hless | ⟨hcell, -⟩
      · exact Nat.lt_trans hless hfirst
      · rw [hcell]
        exact hfirst
    · have hsame : c.apply child rule = { c with used := c.used + 1 } := by
        simp [apply, haccepts]
      rw [hsame]
      exact ih (c := { c with used := c.used + 1 }) h hchild hrest

/-- With a step fewer offshoots are acceptable, or one analysis less is waiting. -/
theorem Tracked.step (hg : g.Steady N) (hpool : Complete g pool) {c : Closure α}
    (h : Tracked g N pool c) (hp : c.pending ≠ []) :
    Tracked g N pool (c.step g) ∧
      ((Grammar.acceptable pool (c.step g).cell).length <
          (Grammar.acceptable pool c.cell).length ∨
        (c.step g).cell = c.cell ∧ (c.step g).pending.length < c.pending.length) := by
  obtain ⟨child, rest, hc⟩ := List.exists_cons_of_ne_nil hp
  have hchild : Trails g N pool c.cell child := h child (hc ▸ List.mem_cons_self)
  have hrest : Tracked g N pool { c with pending := rest } :=
    fun a ha => h a (hc ▸ List.mem_cons_of_mem child ha)
  have hlength : rest.length < c.pending.length := by simp [hc]
  rcases step_cons (g := g) hc with ⟨hs, -⟩ | ⟨hs, -⟩
  · rw [hs]
    exact ⟨hrest, .inr ⟨rfl, hlength⟩⟩
  · obtain ⟨htracked, hless⟩ := hrest.foldl_apply hg hpool hchild fun rule hr => hr
    rw [hs]
    refine ⟨htracked, hless.imp_right ?_⟩
    rintro ⟨hcell, hpending⟩
    exact ⟨hcell, by rw [hpending]; exact hlength⟩

/-- A closure without a limit comes to an end. -/
theorem Tracked.exists_run (hg : g.Steady N) (hpool : Complete g pool) {c : Closure α}
    (h : Tracked g N pool c) : ∃ d, c.run g none = some (.ok d) := by
  rw [run]
  by_cases hp : c.pending = []
  · exact ⟨c, by simp [hp]⟩
  · obtain ⟨hstep, hless⟩ := h.step hg hpool hp
    simpa [hp] using hstep.exists_run hg hpool
termination_by ((Grammar.acceptable pool c.cell).length, c.pending.length)
decreasing_by
  rcases hless with hless | ⟨hcell, hless⟩
  · exact Prod.Lex.left _ _ hless
  · rw [hcell]
    exact Prod.Lex.right _ hless

end Closure

namespace Chart

variable [Weight α] [NumberScore σ] {g : Grammar α}

/-- A span can be filled if the scores that it starts with have the property. -/
theorem fillSpan_of_steady {N : σ → Prop} (hg : g.Steady N) {tokens : Array String} {beam : Nat}
    {progress : Progress α} {span : Nat × Nat}
    (hopened : (opened g tokens progress.chart span.1 span.2).Every fun a => N a.score) :
    ∃ next, (fillSpan g tokens beam none progress span).run = some (.ok next) := by
  obtain ⟨closed, hrun⟩ := (Closure.tracked_start hg hopened
    (progress.used + (starters g tokens progress.chart span.1 span.2).length)).exists_run hg
    (Closure.complete_pool g _)
  rw [opened] at hrun
  simp only [fillSpan, exceeds_none, Bool.false_eq_true, if_false, hrun]
  exact ⟨_, rfl⟩

end Chart

namespace Grammar

variable [Weight α] {g : Grammar α} {tokens : List String} {options : ParseOptions}

/-- If the scores of all derivations have a property that unary rules keep and do not gain on, there
is a chart without a limit. -/
theorem exists_chart_of_steady [NumberScore σ] {N : σ → Prop} (hg : g.Steady N)
    (hscores : ∀ tree : Tree α, tree.Licensed g.rules tokens → N tree.score) (ht : tokens ≠ [])
    (hlimit : options.maxSteps = none) : ∃ chart, g.chart tokens options = .ok chart := by
  have hfill : ∃ progress,
      (Chart.fill g tokens.toArray options.beam none).run = some (.ok progress) := by
    refine Chart.exists_fill (Chart.fills_soundCell g tokens options.beam none)
      fun {done todo s progress} hspans hf => ?_
    have hspan : s ∈ Chart.spans tokens.toArray.size := by rw [← hspans]; simp
    obtain ⟨hle, hlt⟩ : s.1 ≤ s.2 ∧ s.2 < tokens.length := Chart.mem_spans.mp hspan
    refine Chart.fillSpan_of_steady hg ((Cell.every_empty _).foldl_offer fun a ha => ?_)
    have hderives := Chart.derives_starters (fun i j hij hj hlen =>
      (hf.cells (i, j) ((Chart.before_of_spans hspans).1 i j hij hj hlen)).derives) hle hlt ha
    exact a.score_eq ▸ hscores a.tree hderives.licensed
  obtain ⟨progress, hfill⟩ := hfill
  refine ⟨progress.chart, chart_of_fill ht ?_⟩
  rw [ParseOptions.limit, hlimit]
  exact hfill

/-- If no cycle of unary rules gains, there is a chart of every list of tokens without a limit. -/
theorem exists_chart_of_noGain [TotalScore σ] (hg : g.NoGain) (ht : tokens ≠ [])
    (hlimit : options.maxSteps = none) : ∃ chart, g.chart tokens options = .ok chart :=
  exists_chart_of_steady hg.steady (fun _ _ => trivial) ht hlimit

end Grammar

end Constituency
