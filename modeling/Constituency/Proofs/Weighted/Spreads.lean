import Constituency.Proofs.Weighted.Solutions
import Constituency.Proofs.NormalForm.Stations

/-!
# Weights spread over chains

Every link of a chain carries the weight of its rule, and the links of a synthetic label are divided
by their total. So the mass of the rules that are split is a sum over the stations of all rules, in
which a station counts with the share of its label (`mass_binarize`).
-/
namespace Constituency

/-- Two sums over lists can be exchanged. -/
theorem sum_sum_comm {ι κ : Type} (l : List ι) (m : List κ) (f : ι → κ → ℚ) :
    (l.map fun i => (m.map fun j => f i j).sum).sum =
      (m.map fun j => (l.map fun i => f i j).sum).sum := by
  simpa using Multiset.sum_map_sum_map (l : Multiset ι) (m : Multiset κ) (f := f)

theorem sum_map_filterMap {ι κ : Type} (l : List ι) (f : ι → Option κ) (ψ : κ → ℚ) :
    ((l.filterMap f).map ψ).sum = (l.map fun i => (f i).elim 0 ψ).sum := by
  induction l with
  | nil => rfl
  | cons i l ih =>
    rw [List.filterMap_cons, List.map_cons, List.sum_cons, ← ih]
    cases f i <;> simp

theorem Weight.sum_eq (ws : List ℚ) : Weight.sum ws = ws.sum := by
  have hfold : ∀ (ws : List ℚ) (a : ℚ), ws.foldl (· + ·) a = a + ws.sum := by
    intro ws
    induction ws with
    | nil => simp
    | cons w ws ih =>
      intro a
      rw [List.foldl_cons, ih, List.sum_cons, add_assoc]
  have h := hfold ws 0
  rw [zero_add] at h
  exact h

namespace Ruleset

variable {rules : Ruleset ℚ}

/-- The stations of all rules, each with the weight of its rule. -/
def weightedStations (rules : Ruleset ℚ) : List (ℚ × Station) :=
  rules.flatMap fun rule => rule.stations.map fun s => (rule.weight, s)

theorem mem_weightedStations {p : ℚ × Station} :
    p ∈ rules.weightedStations ↔ ∃ rule ∈ rules, rule.weight = p.1 ∧ p.2 ∈ rule.stations := by
  simp only [weightedStations, List.mem_flatMap, List.mem_map]
  constructor
  · rintro ⟨rule, hr, s, hs, rfl⟩
    exact ⟨rule, hr, rfl, hs⟩
  · rintro ⟨rule, hr, hw, hs⟩
    exact ⟨rule, hr, p.2, hs, Prod.ext hw rfl⟩

theorem IsPositive.of_mem_weightedStations (hpos : rules.IsPositive) {p : ℚ × Station}
    (hp : p ∈ rules.weightedStations) : 0 < p.1 := by
  obtain ⟨rule, hr, hw, -⟩ := mem_weightedStations.mp hp
  exact hw ▸ hpos rule hr

/-- The weighted sum over the stations of all rules. -/
def spread (rules : Ruleset ℚ) (ψ : Station → ℚ) : ℚ :=
  (rules.weightedStations.map fun p => p.1 * ψ p.2).sum

@[simp] theorem spread_nil (ψ : Station → ℚ) : spread [] ψ = 0 := rfl

@[simp] theorem spread_cons (rule : Rule ℚ) (ψ : Station → ℚ) :
    spread (rule :: rules) ψ = rule.weight * (rule.stations.map ψ).sum + rules.spread ψ := by
  simp only [spread, weightedStations, List.flatMap_cons, List.map_append, List.sum_append,
    List.map_map, Function.comp_def, List.sum_map_mul_left]

theorem spread_congr {ψ χ : Station → ℚ}
    (h : ∀ rule ∈ rules, ∀ s ∈ rule.stations, ψ s = χ s) : rules.spread ψ = rules.spread χ := by
  refine congrArg List.sum (List.map_congr_left fun p hp => ?_)
  obtain ⟨rule, hr, -, hs⟩ := mem_weightedStations.mp hp
  rw [h rule hr p.2 hs]

theorem spread_eq_zero {ψ : Station → ℚ} (h : ∀ rule ∈ rules, ∀ s ∈ rule.stations, ψ s = 0) :
    rules.spread ψ = 0 := by
  rw [spread_congr h, spread]
  simp

theorem spread_filter_add (p : Rule ℚ → Bool) (ψ : Station → ℚ) :
    spread (rules.filter p) ψ + spread (rules.filter fun rule => !p rule) ψ = rules.spread ψ := by
  induction rules with
  | nil => simp
  | cons rule rules ih =>
    rw [spread_cons, ← ih]
    cases h : p rule <;> simp [h] <;> ring

/-- The first stations are the rules themselves; each of the others comes next after one station. -/
theorem spread_eq (ψ : Station → ℚ) :
    rules.spread ψ = rules.mass (fun head body => ψ ⟨head, body⟩) +
      rules.spread fun s => s.next?.elim 0 ψ := by
  induction rules with
  | nil => simp
  | cons rule rules ih =>
    have hline : (rule.stations.map ψ).sum = ψ ⟨rule.head, rule.body⟩ +
        (rule.stations.map fun s => s.next?.elim 0 ψ).sum := by
      rw [← sum_map_filterMap, Rule.stations, Station.line_eq, List.map_cons, List.sum_cons,
        ← Station.line_eq]
    rw [spread_cons, spread_cons, mass_cons, ih, hline]
    ring

/-- The links of all chains are the stations of all rules. -/
theorem mass_chains (φ : String → List Symbol → ℚ) :
    mass (rules.flatMap Rule.chain) φ = rules.spread fun s => φ s.head s.linkBody := by
  induction rules with
  | nil => rfl
  | cons rule rules ih =>
    rw [List.flatMap_cons, mass_append, ih, spread_cons, Rule.chain_eq]
    simp only [mass, List.map_map, Function.comp_def, Rule.derive, List.sum_map_mul_left]

/-! ### Synthetic labels and their shares -/

/-- The labels made up for the tails of rules. -/
def tailLabels (rules : Ruleset ℚ) : List String :=
  rules.flatMap Rule.syntheticLabels

theorem mem_tailLabels {label : String} :
    label ∈ rules.tailLabels ↔
      ∃ rule ∈ rules, ∃ s ∈ rule.stations, ∃ n, s.next? = some n ∧ n.head = label := by
  simp only [tailLabels, List.mem_flatMap, Rule.syntheticLabels_eq, List.mem_map,
    List.mem_filterMap]
  constructor
  · rintro ⟨rule, hr, n, ⟨s, hs, hn⟩, rfl⟩
    exact ⟨rule, hr, s, hs, n, hn, rfl⟩
  · rintro ⟨rule, hr, s, hs, n, hn, rfl⟩
    exact ⟨rule, hr, n, ⟨s, hs, hn⟩, rfl⟩

theorem not_mem_tailLabels {label : String} (hlabel : IsPlainName label) :
    label ∉ rules.tailLabels := by
  intro h
  obtain ⟨rule, -, s, -, n, hn, rfl⟩ := mem_tailLabels.mp h
  exact not_isPlainName_of_next? hn hlabel

/-- Whether no rule has a tail's label at its head. -/
def TailsNew (rules : Ruleset ℚ) : Prop :=
  ∀ rule ∈ rules, rule.head ∉ rules.tailLabels

theorem PlainNames.tailsNew (hnames : rules.PlainNames) : rules.TailsNew :=
  fun _ hr => not_mem_tailLabels (isPlainName_head hnames hr)

/-- The total weight of the stations with a label. -/
def stationTotal (rules : Ruleset ℚ) (label : String) : ℚ :=
  rules.spread fun s => if s.head = label then 1 else 0

/-- What the weights of the links of a label are multiplied with. -/
def stationShare (rules : Ruleset ℚ) (label : String) : ℚ :=
  if label ∈ rules.tailLabels then 1 / rules.stationTotal label else 1

/-- Only long rules have tails. -/
theorem mem_syntheticLabels_long {label : String} :
    label ∈ (rules.filter Rule.isLong).flatMap Rule.syntheticLabels ↔ label ∈ rules.tailLabels := by
  simp only [tailLabels, List.mem_flatMap, List.mem_filter]
  constructor
  · rintro ⟨rule, ⟨hr, -⟩, hlabel⟩
    exact ⟨rule, hr, hlabel⟩
  · rintro ⟨rule, hr, hlabel⟩
    refine ⟨rule, ⟨hr, ?_⟩, hlabel⟩
    by_contra hshort
    rw [Bool.not_eq_true] at hshort
    rw [Rule.syntheticLabels, Rule.chain_eq, (Rule.stations_of_not_isLong hshort).1] at hlabel
    simp at hlabel

/-- The one station of a short rule is the rule itself. -/
theorem spread_short (ψ : Station → ℚ) :
    spread (rules.filter fun rule => !rule.isLong) ψ =
      mass (rules.filter fun rule => !rule.isLong) fun head body => ψ ⟨head, body⟩ := by
  rw [spread_eq, add_eq_left]
  refine spread_eq_zero fun rule hr s hs => ?_
  have hshort : rule.isLong = false := by simpa using (List.mem_filter.mp hr).2
  rw [(Rule.stations_of_not_isLong hshort).1, List.mem_singleton] at hs
  rw [Rule.isLong, decide_eq_false_iff_not, Nat.not_lt] at hshort
  rw [hs, Station.next?_eq_none hshort]
  rfl

/-- The total of the links of a synthetic label counts all stations with it. -/
theorem getD_totals_links (htails : rules.TailsNew) {label : String}
    (hlabel : label ∈ rules.tailLabels) :
    (merge ((rules.filter Rule.isLong).flatMap Rule.chain)).totals.getD label 0 =
      rules.stationTotal label := by
  have hshort : spread (rules.filter fun rule => !rule.isLong)
      (fun s => if s.head = label then 1 else 0) = 0 := by
    rw [spread_short]
    refine mass_eq_zero fun rule hr => if_neg ?_
    rintro rfl
    exact htails rule (List.mem_filter.mp hr).1 hlabel
  rw [getD_totals, Weight.sum_eq, ← total, total_eq_mass, mass_merge, mass_chains]
  symm
  rw [stationTotal, ← spread_filter_add Rule.isLong, hshort, add_zero]
  rfl

/-- The links of all chains are merged and multiplied with the shares of their labels. -/
theorem binarize_eq (htails : rules.TailsNew) : rules.binarize =
    rules.filter (fun rule => !rule.isLong) ++
      (merge ((rules.filter Rule.isLong).flatMap Rule.chain)).map fun link =>
        { link with weight := rules.stationShare link.head * link.weight } := by
  refine congrArg (_ ++ ·) (List.map_congr_left fun link _ => ?_)
  have hcontains : (Std.TreeSet.ofList
      ((rules.filter Rule.isLong).flatMap Rule.syntheticLabels)).contains link.head = true ↔
        link.head ∈ rules.tailLabels := by
    rw [Std.TreeSet.contains_ofList, List.contains_iff_mem, mem_syntheticLabels_long]
  simp only [hcontains]
  split
  · rename_i hlabel
    rw [getD_totals_links htails hlabel, stationShare, if_pos hlabel, one_div_mul_eq_div]
  · rename_i hlabel
    rw [stationShare, if_neg hlabel, one_mul]

/-- The rules that are split sum over all stations with the shares of their labels. -/
theorem mass_binarize (htails : rules.TailsNew) (φ : String → List Symbol → ℚ) :
    rules.binarize.mass φ =
      rules.spread fun s => rules.stationShare s.head * φ s.head s.linkBody := by
  have hshort : mass (rules.filter fun rule => !rule.isLong) φ =
      spread (rules.filter fun rule => !rule.isLong)
        fun s => rules.stationShare s.head * φ s.head s.linkBody := by
    rw [spread_short]
    refine mass_congr fun rule hr => ?_
    obtain ⟨hmem, hlong⟩ := List.mem_filter.mp hr
    have hnot : rule.isLong = false := by simpa using hlong
    rw [(Rule.stations_of_not_isLong hnot).2, stationShare, if_neg (htails rule hmem), one_mul]
  have hlinks : ∀ links : Ruleset ℚ,
      mass (links.map fun link =>
        { link with weight := rules.stationShare link.head * link.weight }) φ =
      links.mass fun head body => rules.stationShare head * φ head body := by
    intro links
    rw [mass, mass, List.map_map]
    refine congrArg List.sum (List.map_congr_left fun link _ => ?_)
    rw [Function.comp_apply]
    ring
  rw [binarize_eq htails, mass_append, hshort, hlinks, mass_merge, mass_chains, add_comm,
    spread_filter_add]

end Ruleset

end Constituency
