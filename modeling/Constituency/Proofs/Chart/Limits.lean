import Constituency.Proofs.Chart.Soundness

/-!
# What a limit does to a chart

A limit on the steps only cuts work off. Work under a limit always comes to an end; it ends with the
result that it has without one if the steps that this takes are within the limit, and exhausts the
limit otherwise (`Metered`). This holds of a closure, and passes from pieces of work to their
sequence, so that it holds of a chart.
-/
namespace Constituency

/-- Work that goes on counting from `start` and that a limit can only cut off. -/
structure Metered {β : Type} (start : Nat) (used : β → Nat) (work : Option Nat → Counted β) :
    Prop where
  ends : ∀ limit, (work (some limit)).run ≠ none
  start_le : ∀ {b}, (work none).run = some (.ok b) → start ≤ used b
  ok_iff : ∀ {limit b}, start ≤ limit →
    ((work (some limit)).run = some (.ok b) ↔ (work none).run = some (.ok b) ∧ used b ≤ limit)

namespace Metered

variable {β γ : Type} {start limit : Nat} {used : β → Nat} {used' : γ → Nat}
  {work : Option Nat → Counted β}

/-- A limit that the result takes more steps than is exhausted. -/
theorem exhausts (h : Metered start used work) {b : β} (hb : (work none).run = some (.ok b))
    (hstart : start ≤ limit) (hlimit : limit < used b) :
    (work (some limit)).run = some (.error {}) := by
  cases hw : (work (some limit)).run with
  | none => exact absurd hw (h.ends limit)
  | some r =>
    cases r with
    | error e => rfl
    | ok c =>
      obtain ⟨hc, hused⟩ := (h.ok_iff hstart).mp hw
      rw [hb] at hc
      cases hc
      omega

theorem pure {b : β} (hused : used b = start) : Metered start used fun _ => Pure.pure b where
  ends _ h := by cases h
  start_le h := by cases h; exact hused.ge
  ok_iff hstart := by
    constructor
    · intro h
      cases h
      exact ⟨rfl, hused.trans_le hstart⟩
    · exact And.left

/-- A limit cuts off a sequence where it cuts off one of its pieces. -/
theorem bind (h : Metered start used work) {next : Option Nat → β → Counted γ}
    (hnext : ∀ b, Metered (used b) used' fun limit => next limit b) :
    Metered start used' fun limit => work limit >>= next limit where
  ends limit hnone := by
    rw [ExceptT.run_bind] at hnone
    cases hw : (work (some limit)).run with
    | none => exact h.ends limit hw
    | some r =>
      rw [hw] at hnone
      cases r with
      | error e => cases hnone
      | ok b => exact (hnext b).ends limit hnone
  start_le hc := by
    obtain ⟨b, hb, hc⟩ := Counted.bind_eq_ok hc
    exact Nat.le_trans (h.start_le hb) ((hnext b).start_le hc)
  ok_iff hstart := by
    constructor
    · intro hc
      obtain ⟨b, hb, hc⟩ := Counted.bind_eq_ok hc
      obtain ⟨hb, hused⟩ := (h.ok_iff hstart).mp hb
      obtain ⟨hc, hused'⟩ := ((hnext b).ok_iff hused).mp hc
      exact ⟨(Counted.run_bind_of_ok hb _).trans hc, hused'⟩
    · rintro ⟨hc, hused'⟩
      obtain ⟨b, hb, hc⟩ := Counted.bind_eq_ok hc
      -- the first piece takes no more steps than both together
      have hused := Nat.le_trans ((hnext b).start_le hc) hused'
      have hb' := (h.ok_iff hstart).mpr ⟨hb, hused⟩
      exact (Counted.run_bind_of_ok hb' _).trans (((hnext b).ok_iff hused).mpr ⟨hc, hused'⟩)

/-- Steps that are counted in advance can exhaust the limit before the work begins. -/
theorem guard {ahead : Nat} (h : Metered ahead used work) (hstart : start ≤ ahead) :
    Metered start used fun limit => if exceeds limit ahead then throw {} else work limit where
  ends limit := by
    by_cases hlimit : limit < ahead
    · simp [hlimit]
    · simpa [hlimit] using h.ends limit
  start_le hb := Nat.le_trans hstart (h.start_le hb)
  ok_iff {limit b} _ := by
    by_cases hlimit : limit < ahead
    · simp only [exceeds_some, hlimit, decide_true, if_true, exceeds_none, Bool.false_eq_true,
        if_false]
      constructor
      · intro hb
        cases hb
      · rintro ⟨hb, hused⟩
        have := h.start_le hb
        omega
    · simpa [hlimit] using h.ok_iff (Nat.not_lt.mp hlimit)

theorem foldlM {ι : Type} {piece : Option Nat → β → ι → Counted β}
    (hpiece : ∀ b i, Metered (used b) used fun limit => piece limit b i) (items : List ι) (b : β) :
    Metered (used b) used fun limit => items.foldlM (piece limit) b := by
  induction items generalizing b with
  | nil => exact pure rfl
  | cons i items ih =>
    simp only [List.foldlM_cons]
    exact (hpiece b i).bind fun c => ih c

end Metered

variable {α σ : Type} [Weight α] [Score σ] [Logarithm α σ]

namespace Closure

variable {g : Grammar α} {c d : Closure α}

/-- A closure within a limit goes as it goes without one. -/
theorem run_none_of_run_some {limit : Nat} (h : c.run g (some limit) = some (.ok d)) :
    c.run g none = some (.ok d) ∧ (c.used ≤ limit → d.used ≤ limit) := by
  have key : ∀ (c : Closure α) (r : Except Exhausted (Closure α)), c.run g (some limit) = some r →
      ∀ d, r = .ok d → c.run g none = some (.ok d) ∧ (c.used ≤ limit → d.used ≤ limit) := by
    apply run.partial_correctness
    intro run ih c r hr d hd
    subst hd
    rw [Closure.run]
    by_cases hp : c.pending = []
    · simp only [hp, List.isEmpty_nil, if_true, Option.some.injEq, Except.ok.injEq] at hr ⊢
      subst hr
      exact ⟨rfl, id⟩
    · by_cases hl : limit < (c.step g).used
      · simp [hp, hl] at hr
      · simp only [List.isEmpty_iff, hp, hl, if_false, exceeds_some, exceeds_none, decide_false,
          Bool.false_eq_true] at hr ⊢
        obtain ⟨hnone, hused⟩ := ih _ _ hr d rfl
        exact ⟨hnone, fun _ => hused (Nat.not_lt.mp hl)⟩
  exact key c _ h d rfl

/-- A closure that comes to an end without a limit does so under every limit that is enough. -/
theorem run_some_of_run_none (h : c.run g none = some (.ok d)) :
    c.used ≤ d.used ∧ ∀ limit, d.used ≤ limit → c.run g (some limit) = some (.ok d) := by
  have key : ∀ (c : Closure α) (r : Except Exhausted (Closure α)), c.run g none = some r →
      ∀ d, r = .ok d →
        c.used ≤ d.used ∧ ∀ limit, d.used ≤ limit → c.run g (some limit) = some (.ok d) := by
    apply run.partial_correctness
    intro run ih c r hr d hd
    subst hd
    by_cases hp : c.pending = []
    · simp only [hp, List.isEmpty_nil, if_true, Option.some.injEq, Except.ok.injEq] at hr
      subst hr
      refine ⟨Nat.le_refl _, fun limit _ => ?_⟩
      rw [Closure.run]
      simp [hp]
    · simp only [List.isEmpty_iff, hp, if_false, exceeds_none, Bool.false_eq_true] at hr
      obtain ⟨hused, hrun⟩ := ih _ _ hr d rfl
      refine ⟨Nat.le_trans (used_le_step g c) hused, fun limit hlimit => ?_⟩
      have hnext : ¬ limit < (c.step g).used := by omega
      rw [Closure.run]
      simpa [hp, hnext] using hrun limit hlimit
  exact key c _ h d rfl

theorem metered (g : Grammar α) (c : Closure α) :
    Metered c.used Closure.used fun limit => ExceptT.mk (c.run g limit) where
  ends limit := run_ne_none g limit c
  start_le h := (run_some_of_run_none h).1
  ok_iff hstart := by
    constructor
    · intro h
      obtain ⟨hnone, hused⟩ := run_none_of_run_some h
      exact ⟨hnone, hused hstart⟩
    · rintro ⟨h, hused⟩
      exact (run_some_of_run_none h).2 _ hused

end Closure

namespace Chart

theorem metered_fillSpan (g : Grammar α) (tokens : Array String) (beam : Nat)
    (progress : Progress α) (span : Nat × Nat) :
    Metered progress.used Progress.used fun limit =>
      fillSpan g tokens beam limit progress span := by
  refine Metered.guard (Metered.bind (Closure.metered g (.start _ _)) fun closed => ?_)
    (Nat.le_add_right _ _)
  exact Metered.pure rfl

theorem metered_fill (g : Grammar α) (tokens : Array String) (beam : Nat) :
    Metered 0 Progress.used fun limit => fill g tokens beam limit :=
  Metered.foldlM (metered_fillSpan g tokens beam) (spans tokens.size)
    { chart := empty tokens.size, used := 0, built := 0 }

/-- A span that starts with one analysis, to which one rule applies, and none to what it makes. -/
theorem fillSpan_climb [LawfulScore σ] {g : Grammar α} {tokens : Array String}
    {progress : Progress α} {first last : Nat} {a : Analysis α} {rule : Rule α}
    (hstarters : (starters g tokens progress.chart first last).flatten = [a])
    (hrules : g.unaryRules a.label = [rule]) (htop : g.unaryRules rule.head = [])
    (hne : a.label ≠ rule.head) (beam : Nat) :
    ∃ next, (fillSpan g tokens beam none progress (first, last)).run = some (.ok next) ∧
      next.chart = progress.chart.store first last beam
        (((∅ : Cell α).insert a.label a).insert rule.head (.unary rule a)) ∧
      next.used = progress.used + (starters g tokens progress.chart first last).length + 1 := by
  have hopened : [a].foldl Cell.offer (∅ : Cell α) = (∅ : Cell α).insert a.label a := by
    simp [Cell.offer, Cell.accepts]
  have hheld : ((∅ : Cell α).insert a.label a)[a.label]? = some a := Std.TreeMap.getElem?_insert_self
  have hnew : ((∅ : Cell α).insert a.label a)[rule.head]? = none := by
    simp [Std.LawfulEqCmp.compare_eq_iff_eq, hne]
  have hrun := Closure.run_climb (g := g) rfl hheld hnew hrules htop
    (progress.used + (starters g tokens progress.chart first last).length)
  simp only [fillSpan, exceeds_none, Bool.false_eq_true, if_false, hstarters, hopened, hrun]
  exact ⟨_, rfl, rfl, rfl⟩

end Chart

namespace Grammar

/-- A chart that is cut off is reported with its limit. -/
theorem chart_of_exhausted {g : Grammar α} {tokens : List String} {options : ParseOptions}
    {limit : UInt64} (ht : tokens ≠ []) (hlimit : options.maxSteps = some limit)
    (hfill : (Chart.fill g tokens.toArray options.beam (some limit.toNat)).run =
      some (.error {})) :
    g.chart tokens options = .error (.budgetExceeded limit.toNat) := by
  simp [chart, chart?, ParseOptions.limit, hlimit, ht, hfill]

/-- A chart that is returned under a limit is returned under every greater one and without one. A
chart that is returned without a limit takes a number of steps: it is returned under every limit
from there on, and every smaller one is exhausted. -/
theorem chart_limit (g : Grammar α) (tokens : List String) (options : ParseOptions) :
    (∀ limit chart, g.chart tokens { options with maxSteps := some limit } = .ok chart →
      (∀ more, limit ≤ more →
        g.chart tokens { options with maxSteps := some more } = .ok chart) ∧
      g.chart tokens { options with maxSteps := none } = .ok chart) ∧
    ∀ chart, g.chart tokens { options with maxSteps := none } = .ok chart →
      ∃ needed : Nat, ∀ limit : UInt64,
        (needed ≤ limit.toNat →
          g.chart tokens { options with maxSteps := some limit } = .ok chart) ∧
        (limit.toNat < needed → g.chart tokens { options with maxSteps := some limit } =
          .error (.budgetExceeded limit.toNat)) := by
  have hmetered := Chart.metered_fill g tokens.toArray options.beam
  constructor
  · intro limit chart h
    obtain ⟨ht, progress, hfill, rfl⟩ := fill_of_chart h
    obtain ⟨hnone, hused⟩ := (hmetered.ok_iff (Nat.zero_le limit.toNat)).mp hfill
    refine ⟨fun more hmore => chart_of_fill ht ?_, chart_of_fill ht hnone⟩
    exact (hmetered.ok_iff (Nat.zero_le more.toNat)).mpr
      ⟨hnone, Nat.le_trans hused (UInt64.le_iff_toNat_le.mp hmore)⟩
  · intro chart h
    obtain ⟨ht, progress, hfill, rfl⟩ := fill_of_chart h
    refine ⟨progress.used, fun limit => ⟨fun hneeded => chart_of_fill ht ?_, fun hneeded => ?_⟩⟩
    · exact (hmetered.ok_iff (Nat.zero_le limit.toNat)).mpr ⟨hfill, hneeded⟩
    · exact chart_of_exhausted ht rfl (hmetered.exhausts hfill (Nat.zero_le _) hneeded)

/-- A word under a label, and a pair of such labels under another one. -/
def pairingRules : Ruleset ℚ :=
  [.lexical "W" "a" 1, .unary "N" "W" (1 / 2), .binary "P" "N" "N" 1, .unary "S" "P" (1 / 2)]

/-- The grammar of a pair of words. -/
def pairing : Grammar ℚ where
  start := "S"
  rules := pairingRules
  index := .ofRules pairingRules
  rules_ne_nil := List.cons_ne_nil _ _
  rules_valid := by decide +kernel
  index_eq := rfl

theorem unaryRules_pairing : pairing.unaryRules "W" = [.unary "N" "W" (1 / 2)] ∧
    pairing.unaryRules "N" = [] ∧ pairing.unaryRules "P" = [.unary "S" "P" (1 / 2)] ∧
      pairing.unaryRules "S" = [] := by
  simp only [unaryRules_eq_filter]
  decide +kernel

/-- The analysis of a word. -/
noncomputable def pairingWord (i : Nat) : Analysis ℚ :=
  .lexical (.lexical "W" "a" 1) "a" i

/-- The analysis that the unary rule makes of a word. -/
noncomputable def pairingNoun (i : Nat) : Analysis ℚ :=
  .unary (.unary "N" "W" (1 / 2)) (pairingWord i)

/-- The cell of a word. -/
noncomputable def pairingCell (i : Nat) : Cell ℚ :=
  ((∅ : Cell ℚ).insert "W" (pairingWord i)).insert "N" (pairingNoun i)

theorem starters_pairing {i : Nat} (hi : i < 2) (chart : Chart ℚ) :
    Chart.starters pairing #["a", "a"] chart i i = [[pairingWord i]] := by
  have hrules : pairing.lexicalRules (Text.lowerCase "a") = [.lexical "W" "a" 1] := by
    rw [lexicalRules_eq_filter]
    decide +kernel
  have hword : #["a", "a"][i]? = some "a" := by
    obtain rfl | rfl : i = 0 ∨ i = 1 := by omega
    all_goals rfl
  simp [Chart.starters, Chart.ofToken, hword, hrules, pairingWord]

theorem starters_pairing_pair {chart : Chart ℚ} (hleft : chart.cell 0 0 = pairingCell 0)
    (hright : chart.cell 1 1 = pairingCell 1) :
    Chart.starters pairing #["a", "a"] chart 0 1 =
      [[.binary (.binary "P" "N" "N" 1) (pairingNoun 0) (pairingNoun 1)], [], [], []] := by
  have hrules : pairing.binaryRules "N" "N" = [.binary "P" "N" "N" 1] ∧
      pairing.binaryRules "N" "W" = [] ∧ pairing.binaryRules "W" "N" = [] ∧
        pairing.binaryRules "W" "W" = [] := by
    simp only [binaryRules_eq_filter]
    decide +kernel
  obtain ⟨hNN, hNW, hWN, hWW⟩ := hrules
  have hvalues : ∀ i, (pairingCell i).values = [pairingNoun i, pairingWord i] := fun _ => rfl
  have hword : ∀ i, (pairingWord i).label = "W" := fun _ => rfl
  have hnoun : ∀ i, (pairingNoun i).label = "N" := fun _ => rfl
  simp [Chart.starters, Chart.ofCells, hleft, hright, hvalues, hword, hnoun, hNN, hNW, hWN, hWW,
    List.range'_succ]

/-- A word takes two steps. -/
theorem fillSpan_pairing_word {i : Nat} (hi : i < 2) (progress : Chart.Progress ℚ) :
    ∃ next, (Chart.fillSpan pairing #["a", "a"] 10 none progress (i, i)).run = some (.ok next) ∧
      next.chart = progress.chart.store i i 10 (pairingCell i) ∧
      next.used = progress.used + 2 := by
  obtain ⟨hW, hN, -⟩ := unaryRules_pairing
  have hstarters := starters_pairing hi progress.chart
  have hne : (pairingWord i).label ≠ "N" := fun h => absurd h (by decide : "W" ≠ "N")
  obtain ⟨next, hnext, hchart, hused⟩ :=
    Chart.fillSpan_climb (congrArg List.flatten hstarters) hW hN hne 10
  rw [hstarters] at hused
  exact ⟨next, hnext, hchart, hused⟩

/-- The pair takes five steps: one for each two labels of the words, and one for the unary rule. -/
theorem fillSpan_pairing_pair {progress : Chart.Progress ℚ}
    (hleft : progress.chart.cell 0 0 = pairingCell 0)
    (hright : progress.chart.cell 1 1 = pairingCell 1) :
    ∃ next, (Chart.fillSpan pairing #["a", "a"] 10 none progress (0, 1)).run = some (.ok next) ∧
      next.used = progress.used + 5 := by
  obtain ⟨-, -, hP, hS⟩ := unaryRules_pairing
  have hstarters := starters_pairing_pair hleft hright
  obtain ⟨next, hnext, -, hused⟩ :=
    Chart.fillSpan_climb (congrArg List.flatten hstarters) hP hS (by decide +kernel) 10
  rw [hstarters] at hused
  exact ⟨next, hnext, hused⟩

theorem fill_pairing : ∃ progress,
    (Chart.fill pairing #["a", "a"] 10 none).run = some (.ok progress) ∧ progress.used = 9 := by
  have hspans : Chart.spans 2 = [(0, 0), (1, 1), (0, 1)] := by decide
  have hfill : Chart.fill pairing #["a", "a"] 10 none =
      (Chart.spans 2).foldlM (Chart.fillSpan pairing #["a", "a"] 10 none)
        { chart := .empty 2, used := 0, built := 0 } := rfl
  have hprune : ∀ i, (pairingCell i).prune 10 = pairingCell i := fun _ => rfl
  obtain ⟨first, hfirst, hchart, hused⟩ :=
    fillSpan_pairing_word Nat.two_pos { chart := .empty 2, used := 0, built := 0 }
  obtain ⟨second, hsecond, hchart', hused'⟩ := fillSpan_pairing_word Nat.one_lt_two first
  have hlength : first.chart.length = 2 := by rw [hchart, Chart.length_store, Chart.empty]
  have hleft : second.chart.cell 0 0 = pairingCell 0 := by
    rw [hchart', Chart.cell_store_of_ne _ _ _ (by decide), hchart,
      Chart.cell_store_self _ _ _ le_rfl Nat.two_pos, hprune]
  have hright : second.chart.cell 1 1 = pairingCell 1 := by
    rw [hchart', Chart.cell_store_self _ _ _ le_rfl (hlength ▸ Nat.one_lt_two), hprune]
  obtain ⟨third, hthird, hused''⟩ := fillSpan_pairing_pair hleft hright
  refine ⟨third, ?_, by rw [hused'', hused', hused]⟩
  rw [hfill, hspans, List.foldlM_cons, Counted.run_bind_of_ok hfirst, List.foldlM_cons,
    Counted.run_bind_of_ok hsecond, List.foldlM_cons, Counted.run_bind_of_ok hthird]
  rfl

/-- Nine steps suffice for the chart of the pair, and eight do not. -/
theorem chart_limit_pairing :
    ∃ chart, pairing.chart ["a", "a"] {} = .ok chart ∧
      pairing.chart ["a", "a"] { maxSteps := some 9 } = .ok chart ∧
      pairing.chart ["a", "a"] { maxSteps := some 8 } = .error (.budgetExceeded 8) ∧
      ∀ limit : UInt64,
        (9 ≤ limit → pairing.chart ["a", "a"] { maxSteps := some limit } = .ok chart) ∧
        (limit.toNat < 9 → pairing.chart ["a", "a"] { maxSteps := some limit } =
          .error (.budgetExceeded limit.toNat)) := by
  obtain ⟨progress, hfill, hused⟩ := fill_pairing
  have hmetered := Chart.metered_fill pairing #["a", "a"] 10
  have hnine : pairing.chart ["a", "a"] { maxSteps := some 9 } = .ok progress.chart :=
    chart_of_fill (List.cons_ne_nil _ _)
      ((hmetered.ok_iff (Nat.zero_le 9)).mpr ⟨hfill, hused.le⟩)
  have height : pairing.chart ["a", "a"] { maxSteps := some 8 } =
      .error (.budgetExceeded (8 : UInt64).toNat) :=
    chart_of_exhausted (List.cons_ne_nil _ _) rfl
      (hmetered.exhausts hfill (Nat.zero_le 8) (hused ▸ by decide))
  obtain ⟨hmore, hneeded⟩ := chart_limit pairing ["a", "a"] {}
  obtain ⟨habove, hnone⟩ := hmore 9 progress.chart hnine
  obtain ⟨needed, hlimits⟩ := hneeded progress.chart hnone
  -- the threshold lies above eight, since a limit of eight is exhausted
  have hthreshold : 8 < needed := by
    by_contra hle
    have hok := (hlimits 8).1 (Nat.not_lt.mp hle)
    cases height.symm.trans hok
  exact ⟨progress.chart, hnone, hnine, height, fun limit => ⟨habove limit, fun hlt =>
    (hlimits limit).2 (Nat.lt_of_lt_of_le hlt hthreshold)⟩⟩

end Grammar

end Constituency
