import Constituency.Proofs.Chart.ClosureRuns
import Constituency.Proofs.Chart.Completion
import Constituency.Proofs.ExactWeights
import Constituency.Proofs.Tree.Licence

/-!
# Soundness of a chart

Whatever a chart holds for a label over a span is a licensed tree with that label and that span, for
every beam and every limit. A span starts with trees that one rule builds from the tokens or from
trees of shorter spans, and closing and pruning its cell adds nothing but unary nodes.
-/
namespace Constituency

variable {α σ : Type} [Weight α] [Score σ] [Logarithm α σ]

namespace Chart

variable {g : Grammar α} {chart : Chart α} {a : Analysis α}

theorem mem_starters_token {tokens : List String} {first : Nat} :
    a ∈ (starters g tokens.toArray chart first first).flatten ↔
      ∃ token, tokens[first]? = some token ∧
        ∃ rule ∈ g.lexicalRules (Text.lowerCase token), a = .lexical rule token first := by
  simp only [starters, if_true, List.getElem?_toArray]
  cases tokens[first]? with
  | none => simp
  | some token =>
    simp only [Option.map_some, Option.getD_some, ofToken, List.mem_flatten, List.mem_map,
      Option.some.injEq, exists_eq_left']
    constructor
    · rintro ⟨_, ⟨rule, hr, rfl⟩, ha⟩
      exact ⟨rule, hr, List.mem_singleton.mp ha⟩
    · rintro ⟨rule, hr, rfl⟩
      exact ⟨_, ⟨rule, hr, rfl⟩, List.mem_singleton.mpr rfl⟩

theorem mem_ofCells {left right : Cell α} :
    a ∈ (ofCells g left right).flatten ↔
      ∃ l ∈ left.values, ∃ r ∈ right.values, ∃ rule ∈ g.binaryRules l.label r.label,
        a = .binary rule l r := by
  simp only [ofCells, List.mem_flatten, List.mem_flatMap, List.mem_map]
  constructor
  · rintro ⟨_, ⟨l, hl, r, hr, rfl⟩, ha⟩
    obtain ⟨rule, hrule, rfl⟩ := List.mem_map.mp ha
    exact ⟨l, hl, r, hr, rule, hrule, rfl⟩
  · rintro ⟨l, hl, r, hr, rule, hrule, rfl⟩
    exact ⟨_, ⟨l, hl, r, hr, rfl⟩, List.mem_map_of_mem hrule⟩

theorem mem_starters_split {tokens : Array String} {first last : Nat} (h : first < last) :
    a ∈ (starters g tokens chart first last).flatten ↔
      ∃ split, first ≤ split ∧ split < last ∧
        ∃ l ∈ (chart.cell first split).values, ∃ r ∈ (chart.cell (split + 1) last).values,
          ∃ rule ∈ g.binaryRules l.label r.label, a = .binary rule l r := by
  have hne : first ≠ last := by omega
  rw [starters, if_neg hne]
  constructor
  · intro ha
    obtain ⟨step, hstep, ha⟩ := List.mem_flatten.mp ha
    obtain ⟨split, hsplit, hstep⟩ := List.mem_flatMap.mp hstep
    obtain ⟨hfirst, hlast⟩ := List.mem_range'_1.mp hsplit
    exact ⟨split, hfirst, by omega, mem_ofCells.mp (List.mem_flatten.mpr ⟨step, hstep, ha⟩)⟩
  · rintro ⟨split, hfirst, hlast, ha⟩
    obtain ⟨step, hstep, ha⟩ := List.mem_flatten.mp (mem_ofCells.mpr ha)
    have hsplit : split ∈ List.range' first (last - first) :=
      List.mem_range'_1.mpr ⟨hfirst, by omega⟩
    exact List.mem_flatten.mpr ⟨step, List.mem_flatMap.mpr ⟨split, hsplit, hstep⟩, ha⟩

/-- An analysis whose tree derives a span from its label. -/
def Derives (g : Grammar α) (tokens : List String) (first last : Nat) (a : Analysis α) : Prop :=
  a.tree.IsDerivation g.rules tokens a.label first last

theorem derives_unary {tokens : List String} {first last : Nat}
    (h : Derives g tokens first last a) {rule : Rule α} (hr : rule ∈ g.unaryRules a.label) :
    Derives g tokens first last (.unary rule a) where
  licensed := Tree.licensed_unary.mpr ⟨Grammar.mem_unaryRules.mp hr, h.licensed⟩
  label_eq := rfl
  first_eq := h.first_eq
  last_eq := h.last_eq

theorem derives_starters {tokens : List String} {first last : Nat}
    (hcells : ∀ i j, i ≤ j → j < tokens.length → j - i < last - first →
      (chart.cell i j).Every (Derives g tokens i j))
    (hle : first ≤ last) (hlt : last < tokens.length)
    (ha : a ∈ (starters g tokens.toArray chart first last).flatten) :
    Derives g tokens first last a := by
  rcases Nat.eq_or_lt_of_le hle with rfl | hlast
  · obtain ⟨token, ht, rule, hr, rfl⟩ := mem_starters_token.mp ha
    obtain ⟨hmem, word, hbody, hword⟩ := Grammar.mem_lexicalRules.mp hr
    exact ⟨Tree.licensed_lexical.mpr ⟨hmem, ht, word, hbody, hword⟩, rfl, rfl, rfl⟩
  · obtain ⟨split, hfs, hsl, l, hl, r, hr, rule, hrule, rfl⟩ := (mem_starters_split hlast).mp ha
    obtain ⟨hmem, hbody⟩ := Grammar.mem_binaryRules.mp hrule
    have hleft : Derives g tokens first split l :=
      (hcells first split hfs (by omega) (by omega)).of_mem_values hl
    have hright : Derives g tokens (split + 1) last r :=
      (hcells (split + 1) last (by omega) hlt (by omega)).of_mem_values hr
    have hadj : l.tree.last + 1 = r.tree.first := by rw [hleft.last_eq, hright.first_eq]
    exact ⟨Tree.licensed_binary.mpr ⟨⟨hmem, hbody, hadj⟩, hleft.licensed, hright.licensed⟩,
      rfl, hleft.first_eq, hright.last_eq⟩

/-- A cell holds derivations of its span only, and no more labels than the beam allows. -/
structure SoundCell (g : Grammar α) (tokens : List String) (beam first last : Nat)
    (cell : Cell α) : Prop where
  derives : cell.Every (Derives g tokens first last)
  size_le : 0 < beam → cell.size ≤ beam

theorem fills_soundCell (g : Grammar α) (tokens : List String) (beam : Nat)
    (limit : Option Nat) :
    Fills g tokens.toArray beam limit (SoundCell g tokens beam (σ := σ)) := by
  intro chart first last used closed _ hle hlt hshorter hrun
  have hopened : (opened g tokens.toArray chart first last).Every (Derives g tokens first last) :=
    (Cell.every_empty _).foldl_offer fun a ha =>
      derives_starters (fun i j hij hj hlen => (hshorter i j hij hj hlen).derives) hle hlt ha
  exact ⟨(Closure.every_run (fun _ h rule hr => derives_unary h hr) hrun hopened).prune beam,
    Cell.size_prune_le _⟩

end Chart

namespace Grammar

/-- A chart that is returned is a filled one. -/
theorem fill_of_chart {g : Grammar α} {tokens : List String} {options : ParseOptions}
    {chart : Chart α} (h : g.chart tokens options = .ok chart) :
    tokens ≠ [] ∧ ∃ progress,
      (Chart.fill g tokens.toArray options.beam options.limit).run = some (.ok progress) ∧
        progress.chart = chart := by
  unfold Grammar.chart chart? at h
  by_cases ht : tokens = []
  · simp [ht] at h
  · simp only [List.isEmpty_iff, ht, if_false] at h
    refine ⟨ht, ?_⟩
    match hf : (Chart.fill g tokens.toArray options.beam options.limit).run with
    | none => simp [hf] at h
    | some (.error e) => simp [hf] at h
    | some (.ok progress) =>
      refine ⟨progress, rfl, ?_⟩
      simpa [hf] using h

/-- Every analysis in a chart derives its span from the label that it is held for, and no cell holds
more labels than the beam allows. -/
theorem chart_sound (g : Grammar α) (tokens : List String) (options : ParseOptions)
    {chart : Chart α} (h : g.chart tokens options = .ok chart) :
    chart.length = tokens.length ∧
      ∀ first last, first ≤ last → last < tokens.length →
        (∀ label a, chart.best? label first last = some a →
          a.tree.IsDerivation g.rules tokens label first last ∧
            a.tree.leaves = Tree.spanTokens tokens first last ∧ a.score = a.tree.score) ∧
        (0 < options.beam → (chart.cell first last).size ≤ options.beam) := by
  obtain ⟨-, progress, hfill, rfl⟩ := fill_of_chart h
  obtain ⟨hlength, hcells⟩ :=
    Chart.fill_induction (Chart.fills_soundCell g tokens options.beam options.limit) hfill
  refine ⟨hlength, fun first last hle hlt => ?_⟩
  have hsound := hcells first last hle hlt
  refine ⟨fun label a ha => ?_, hsound.size_le⟩
  obtain ⟨rfl, hderives⟩ := hsound.derives label a ha
  refine ⟨hderives, ?_, a.score_eq⟩
  rw [hderives.licensed.leaves_eq, hderives.first_eq, hderives.last_eq]

/-- Of the two derivations of three words a chart with a narrow beam holds one at most. -/
theorem chart_sound_doubling :
    ∃ chart, doubling.chart ["a", "A", "a"] { beam := 1 } = .ok chart ∧
      (chart.cell 0 2).size ≤ 1 ∧
      ∀ label a, chart.best? label 0 2 = some a →
        a.tree.IsDerivation doublingRules ["a", "A", "a"] label 0 2 ∧
          a.tree.leaves = ["a", "A", "a"] := by
  obtain ⟨chart, h⟩ := exists_chart unaryRules_doubling ["a", "A", "a"]
    (List.cons_ne_nil _ _) { beam := 1 } rfl
  obtain ⟨-, hcells⟩ := chart_sound doubling ["a", "A", "a"] { beam := 1 } h
  obtain ⟨hanalyses, hsize⟩ := hcells 0 2 (by decide) (by decide)
  exact ⟨chart, h, hsize Nat.one_pos, fun label a ha =>
    ⟨(hanalyses label a ha).1, (hanalyses label a ha).2.1⟩⟩

end Grammar

end Constituency
