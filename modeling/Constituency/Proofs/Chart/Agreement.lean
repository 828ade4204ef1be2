import Constituency.Proofs.Chart.Soundness
import Constituency.Proofs.Chart.Termination
import Constituency.Proofs.Grammar.Reordering
import Constituency.Proofs.Language.Preservation

/-!
# Charts of the same rules agree

Which of several equally good analyses a cell holds hangs on the order of the rules; which labels it
has and how good their analyses are does not. Whatever a closure holds, any cell that is settled and
covers what the closure begins with covers it; so of two closures that begin alike each covers the
other, and with a linear order of scores they hold the same labels with the same scores. A beam
looks at nothing else.
-/
namespace Constituency

/-- Lawful scores of which no two different ones are equally good. -/
class LinearScore (σ : Type) [Score σ] : Prop extends LawfulScore σ where
  le_antisymm : ∀ {a b : σ}, a ≤ b → b ≤ a → a = b

instance Score.linearReal : LinearScore ℝ where
  le_antisymm := le_antisymm

variable {α σ : Type} [Score σ] [Logarithm α σ]

/-! ### Cells with the same scores -/

namespace Cell

variable {cell other : Cell α}

/-- Whatever the cell holds, the other one holds something for the same label that is as good. -/
def CoveredBy (cell other : Cell α) : Prop :=
  cell.Every fun a => other.Reaches (· ≤ ·) a.label a.score

/-- The score that is held for a label. -/
def score? (cell : Cell α) (label : String) : Option σ :=
  cell[label]?.map (·.score)

/-- Whether two cells hold the same labels with the same scores. -/
def Agrees (cell other : Cell α) : Prop :=
  ∀ label, cell.score? label = other.score? label

theorem Agrees.symm (h : cell.Agrees other) : other.Agrees cell :=
  fun label => (h label).symm

theorem Agrees.exists_getElem? (h : cell.Agrees other) {label : String} {a : Analysis α}
    (ha : cell[label]? = some a) : ∃ b, other[label]? = some b ∧ b.score = a.score := by
  have hscore : other.score? label = some a.score := by rw [← h, score?, ha]; rfl
  exact Option.map_eq_some_iff.mp hscore

theorem Agrees.coveredBy [LawfulScore σ] (h : cell.Agrees other) (hcell : cell.Every fun _ => True) :
    cell.CoveredBy other := by
  intro label a ha
  obtain ⟨rfl, -⟩ := hcell label a ha
  obtain ⟨b, hb, hscore⟩ := h.exists_getElem? ha
  exact ⟨rfl, b, hb, hscore ▸ Score.comparison_le.refl _⟩

/-- Cells that cover each other agree. -/
theorem CoveredBy.agrees [LinearScore σ] (h : cell.CoveredBy other) (h' : other.CoveredBy cell) :
    cell.Agrees other := by
  have hsome : ∀ {cell other : Cell α}, cell.CoveredBy other → other.CoveredBy cell →
      ∀ {label : String} {s : σ}, cell.score? label = some s → other.score? label = some s := by
    intro cell other h h' label s hs
    obtain ⟨a, ha, rfl⟩ := Option.map_eq_some_iff.mp hs
    obtain ⟨rfl, b, hb, hle⟩ := h label a ha
    obtain ⟨hlabel, c, hc, hge⟩ := h' _ b hb
    rw [hlabel, ha] at hc
    cases hc
    rw [score?, hb, Option.map_some, LinearScore.le_antisymm hge hle]
  exact fun label => Option.ext fun s => ⟨hsome h h', hsome h' h⟩

/-- Cells that agree are ranked alike. -/
theorem Agrees.map_ranking (h : cell.Agrees other) :
    cell.ranking.map (fun entry => (entry.1, entry.2.score)) =
      other.ranking.map fun entry => (entry.1, entry.2.score) := by
  have hlist : (cell.map fun _ a => a.score).toList = (other.map fun _ a => a.score).toList := by
    refine (Std.TreeMap.Equiv.of_forall_constGet?_eq fun label => ?_).toList_eq
    rw [Std.TreeMap.getElem?_map, Std.TreeMap.getElem?_map]
    exact h label
  rw [Std.TreeMap.toList_map, Std.TreeMap.toList_map] at hlist
  have hranking : ∀ cell : Cell α, cell.ranking.map (fun entry => (entry.1, entry.2.score)) =
      (cell.toList.map fun entry => (entry.1, entry.2.score)).mergeSort
        fun x y => decide (y.2 ≤ x.2) :=
    fun cell => List.map_mergeSort fun _ _ _ _ => rfl
  rw [hranking, hranking, hlist]

/-- A beam leaves cells that agree in agreement. -/
theorem Agrees.prune (h : cell.Agrees other) (beam : Nat) :
    (cell.prune beam).Agrees (other.prune beam) := by
  have hsize : cell.size = other.size := by
    have hlength := congrArg List.length h.map_ranking
    simpa [ranking, List.length_mergeSort] using hlength
  have hkept : (cell.kept beam).map (fun entry => (entry.1, entry.2.score)) =
      (other.kept beam).map fun entry => (entry.1, entry.2.score) := by
    unfold kept
    rw [hsize]
    split
    · rw [List.map_take, List.map_take, h.map_ranking]
    · exact h.map_ranking
  have hscore : ∀ (cell : Cell α) (label : String) (s : σ), (cell.prune beam).score? label = some s ↔
      (label, s) ∈ (cell.kept beam).map fun entry => (entry.1, entry.2.score) := by
    intro cell label s
    simp [score?, getElem?_prune]
  exact fun label => Option.ext fun s => by rw [hscore, hscore, hkept]

end Cell

namespace Grammar

variable [Weight α] {g g' : Grammar α} {rule : Rule α}

/-- Two grammars whose rules are the same, whatever their order. -/
def SameRules (g g' : Grammar α) : Prop :=
  ∀ rule, rule ∈ g.rules ↔ rule ∈ g'.rules

theorem SameRules.symm (h : g.SameRules g') : g'.SameRules g :=
  fun rule => (h rule).symm

theorem SameRules.lexicalRules (h : g.SameRules g') {key : String} :
    rule ∈ g.lexicalRules key ↔ rule ∈ g'.lexicalRules key := by
  rw [mem_lexicalRules, mem_lexicalRules, h]

theorem SameRules.unaryRules (h : g.SameRules g') {child : String} :
    rule ∈ g.unaryRules child ↔ rule ∈ g'.unaryRules child := by
  rw [mem_unaryRules, mem_unaryRules, h]

theorem SameRules.binaryRules (h : g.SameRules g') {left right : String} :
    rule ∈ g.binaryRules left right ↔ rule ∈ g'.binaryRules left right := by
  rw [mem_binaryRules, mem_binaryRules, h]

end Grammar

namespace Chart

variable [Weight α] {g g' : Grammar α} {tokens : Array String} {beam : Nat} {limit : Option Nat}
  {first last : Nat} {cell cell' : Cell α}

/-! ### How the cells of a chart come about -/

/-- The cells that a span can be filled with: the closure of what the span opens with, once all
shorter spans have such cells. -/
inductive Grown (g : Grammar α) (tokens : Array String) (beam : Nat) (limit : Option Nat) :
    Nat → Nat → Cell α → Prop
  | fill {chart : Chart α} {first last used : Nat} {closed : Closure α} (hle : first ≤ last)
      (hlt : last < tokens.size)
      (shorter : ∀ i j, i ≤ j → j < tokens.size → j - i < last - first →
        Grown g tokens beam limit i j (chart.cell i j))
      (hrun : (Closure.start (opened g tokens chart first last) used).run g limit =
        some (.ok closed)) :
      Grown g tokens beam limit first last (closed.cell.prune beam)

theorem grown_of_fill {progress : Progress α}
    (h : (fill g tokens beam limit).run = some (.ok progress)) :
    progress.chart.length = tokens.size ∧ ∀ first last, first ≤ last → last < tokens.size →
      Grown g tokens beam limit first last (progress.chart.cell first last) :=
  fill_induction (fun _ _ _ _ _ _ hle hlt hshorter hrun => .fill hle hlt hshorter hrun) h

theorem every_opened (chart : Chart α) :
    (opened g tokens chart first last).Every fun _ => True :=
  (Cell.every_empty _).foldl_offer fun _ _ => trivial

/-- Every analysis has the label that it is found by. -/
theorem Grown.every (h : Grown g tokens beam limit first last cell) :
    cell.Every fun _ => True := by
  cases h with
  | fill _ _ _ hrun =>
    exact (Closure.every_run (fun _ _ _ _ => trivial) hrun (every_opened _)).prune beam

/-! ### What one chart holds another one covers -/

section Covering

variable {tokens : List String} {chart chart' : Chart α} [LawfulScore σ]

/-- What a span starts with is covered by what it starts with in another chart, if all shorter cells
are. -/
theorem reaches_starters (hrules : g.SameRules g')
    (hcells : ∀ i j, i ≤ j → j < tokens.length → j - i < last - first →
      (chart.cell i j).CoveredBy (chart'.cell i j) ∧ (chart'.cell i j).Every fun _ => True)
    (hle : first ≤ last) (hlt : last < tokens.length) {a : Analysis α}
    (ha : a ∈ (starters g tokens.toArray chart first last).flatten) :
    (opened g' tokens.toArray chart' first last).Reaches (· ≤ ·) a.label a.score := by
  rcases Nat.eq_or_lt_of_le hle with rfl | hlast
  · obtain ⟨token, ht, rule, hr, rfl⟩ := mem_starters_token.mp ha
    exact Cell.reaches_foldl_offer Score.comparison_le ∅
      (mem_starters_token.mpr ⟨token, ht, rule, hrules.lexicalRules.mp hr, rfl⟩)
  · obtain ⟨split, hfs, hsl, l, hl, r, hr, rule, hrule, rfl⟩ := (mem_starters_split hlast).mp ha
    obtain ⟨hcover, hevery⟩ := hcells first split hfs (by omega) (by omega)
    obtain ⟨hcover', hevery'⟩ := hcells (split + 1) last (by omega) hlt (by omega)
    obtain ⟨l', hl', hle⟩ := hcover.of_mem_values hl
    obtain ⟨r', hr', hre⟩ := hcover'.of_mem_values hr
    have hbinary : rule ∈ g'.binaryRules l'.label r'.label := by
      rw [(hevery _ l' hl').1, (hevery' _ r' hr').1]
      exact hrules.binaryRules.mp hrule
    have hmade : .binary rule l' r' ∈ (starters g' tokens.toArray chart' first last).flatten :=
      (mem_starters_split hlast).mpr ⟨split, hfs, hsl, l', Cell.mem_values.mpr ⟨_, hl'⟩, r',
        Cell.mem_values.mpr ⟨_, hr'⟩, rule, hbinary, rfl⟩
    refine (Cell.reaches_foldl_offer Score.comparison_le ∅ hmade).mono Score.comparison_le ?_
    exact Score.comparison_le.add (Score.comparison_le.add (Score.comparison_le.refl _) hle) hre

/-- A closure is covered by the closure of any cell that covers what it begins with. -/
theorem covered_closed (hrules : g.SameRules g') {limit limit' : Option Nat} {used used' : Nat}
    {cell cell' : Cell α} {closed closed' : Closure α} (hcell : cell.CoveredBy cell')
    (hevery : cell'.Every fun _ => True)
    (hrun : (Closure.start cell used).run g limit = some (.ok closed))
    (hrun' : (Closure.start cell' used').run g' limit' = some (.ok closed')) :
    closed.cell.CoveredBy closed'.cell := by
  have hsettled := Closure.settled_run hrun' hevery
  refine Closure.every_run (fun a ha rule hr => ?_) hrun
    (hcell.imp fun a ha => Closure.reaches_run Score.comparison_le hrun' ha)
  obtain ⟨b, hb, hle⟩ := ha
  have hmade := hsettled a.label b hb rule (hrules.unaryRules.mp hr)
  exact hmade.mono Score.comparison_le (LawfulScore.add_le_add_left _ hle)

/-- Filling a span keeps covering. -/
theorem covered_of_runs (hrules : g.SameRules g') {limit limit' : Option Nat} {used used' : Nat}
    (hcells : ∀ i j, i ≤ j → j < tokens.length → j - i < last - first →
      (chart.cell i j).CoveredBy (chart'.cell i j) ∧ (chart'.cell i j).Every fun _ => True)
    (hle : first ≤ last) (hlt : last < tokens.length) {closed closed' : Closure α}
    (hrun : (Closure.start (opened g tokens.toArray chart first last) used).run g limit =
      some (.ok closed))
    (hrun' : (Closure.start (opened g' tokens.toArray chart' first last) used').run g' limit' =
      some (.ok closed')) :
    closed.cell.CoveredBy closed'.cell :=
  covered_closed hrules ((Cell.every_empty _).foldl_offer fun _ ha =>
    reaches_starters hrules hcells hle hlt ha) (every_opened _) hrun hrun'

end Covering

/-- The cells of a span agree in the charts of two grammars with the same rules. -/
theorem Grown.agrees [LinearScore σ] {tokens : List String} {limit' : Option Nat}
    (hrules : g.SameRules g') (h : Grown g tokens.toArray beam limit first last cell) :
    ∀ {cell'}, Grown g' tokens.toArray beam limit' first last cell' → cell.Agrees cell' := by
  induction h with
  | fill hle hlt shorter hrun ih =>
    intro cell' h'
    cases h' with
    | fill _ _ shorter' hrun' =>
      refine Cell.Agrees.prune (Cell.CoveredBy.agrees ?_ ?_) beam
      · refine covered_of_runs hrules (fun i j hij hj hlen => ?_) hle hlt hrun hrun'
        have hcell := ih i j hij hj hlen (shorter' i j hij hj hlen)
        exact ⟨hcell.coveredBy (shorter i j hij hj hlen).every, (shorter' i j hij hj hlen).every⟩
      · refine covered_of_runs hrules.symm (fun i j hij hj hlen => ?_) hle hlt hrun' hrun
        have hcell := ih i j hij hj hlen (shorter' i j hij hj hlen)
        exact ⟨hcell.symm.coveredBy (shorter' i j hij hj hlen).every,
          (shorter i j hij hj hlen).every⟩

end Chart

namespace Grammar

variable [Weight α] {g g' : Grammar α} {tokens : List String} {options : ParseOptions}
  {chart chart' : Chart α}

/-- The charts of two grammars with the same rules have the same labels with the same scores. -/
theorem SameRules.agrees [LinearScore σ] (hrules : g.SameRules g')
    (h : g.chart tokens options = .ok chart) (h' : g'.chart tokens options = .ok chart')
    {first last : Nat} (hle : first ≤ last) (hlt : last < tokens.length) :
    (chart.cell first last).Agrees (chart'.cell first last) := by
  obtain ⟨-, progress, hfill, rfl⟩ := fill_of_chart h
  obtain ⟨-, progress', hfill', rfl⟩ := fill_of_chart h'
  exact ((Chart.grown_of_fill hfill).2 first last hle hlt).agrees hrules
    ((Chart.grown_of_fill hfill').2 first last hle hlt)

/-- The order of the rules does not matter to a chart: with rules in another order there is a
grammar as well, and whatever the beam, its charts have the same labels with the same scores in
every cell. -/
theorem chart_scores_of_perm [LinearScore σ] {rules rules' : Ruleset α} (hperm : rules.Perm rules')
    {g : Grammar α} (hg : ofRules rules = .ok g) :
    ∃ g', ofRules rules' = .ok g' ∧
      ∀ (tokens : List String) (options : ParseOptions) (chart chart' : Chart α),
        g.chart tokens options = .ok chart → g'.chart tokens options = .ok chart' →
          ∀ first last, first ≤ last → last < tokens.length → ∀ label,
            (chart.best? label first last).map (·.score) =
              (chart'.best? label first last).map (·.score) := by
  obtain ⟨hrules, -⟩ := eq_of_ofRules hg
  obtain ⟨g', hg'⟩ := g.exists_ofRules_of_perm (hrules ▸ hperm)
  obtain ⟨hrules', -⟩ := eq_of_ofRules hg'
  have hsame : g.SameRules g' := by
    intro rule
    rw [hrules, hrules']
    exact hperm.mem_iff
  exact ⟨g', hg', fun tokens options chart chart' h h' first last hle hlt label =>
    hsame.agrees h h' hle hlt label⟩

/-- Two labels that rewrite each other, in both orders of their rules, have the same best score for
a word; the beam leaves one label. -/
theorem chart_scores_of_reverse :
    ∃ g g' : Grammar ℚ, ofRules cyclicRules = .ok g ∧ ofRules cyclicRules.reverse = .ok g' ∧
      ∃ chart chart', g.chart ["x"] { beam := 1 } = .ok chart ∧
        g'.chart ["x"] { beam := 1 } = .ok chart' ∧
          ∀ label, (chart.best? label 0 0).map (·.score) = (chart'.best? label 0 0).map (·.score) := by
  have hvalid : cyclicRules.fault? .probabilities = none := by decide +kernel
  have hone : ∀ rule ∈ cyclicRules, rule.weight ≤ 1 := by decide +kernel
  have hperm : cyclicRules.Perm cyclicRules.reverse := (List.reverse_perm _).symm
  obtain ⟨g', hg', hscores⟩ := chart_scores_of_perm hperm (ofRules_cons hvalid)
  obtain ⟨hrules', -⟩ := eq_of_ofRules hg'
  have hone' : ∀ rule ∈ g'.rules, rule.weight ≤ 1 :=
    fun rule hr => hone rule (List.mem_reverse.mp (hrules' ▸ hr))
  have hchart : ∀ g : Grammar ℚ, (∀ rule ∈ g.rules, rule.weight ≤ 1) →
      ∃ chart, g.chart ["x"] { beam := 1 } = .ok chart :=
    fun g hg => exists_chart_of_noGain (noGain_of_weight_le_one fun rule hr _ => hg rule hr)
      (List.cons_ne_nil "x" []) rfl
  obtain ⟨chart, h⟩ := hchart cyclic hone
  obtain ⟨chart', h'⟩ := hchart g' hone'
  exact ⟨_, g', ofRules_cons hvalid, hg', chart, chart', h, h',
    hscores ["x"] { beam := 1 } chart chart' h h' 0 0 (by decide) (by decide)⟩

end Grammar

end Constituency
