import Constituency.Proofs.Weighted.Solutions
import Constituency.Proofs.NormalForm.Units

/-!
# Solutions and unit labels

The series of a unit label is its word alone, since there is one rule for it and that has weight
one. So a solution of the rules extends to unit labels when words are extracted.
-/
namespace Constituency.Ruleset

variable {rules : Ruleset ℚ} {F : String → Series}

/-- The rules of the unit labels. -/
def units (rules : Ruleset ℚ) : Ruleset ℚ :=
  firsts (rules.flatMap unitsOf)

/-- The series of all labels once words are extracted. -/
def unitSeries (rules : Ruleset ℚ) (F : String → Series) (label : String) : Series :=
  if label ∈ rules.units.map (·.head) then
    fun words => if words.map unitLabel = [label] then 1 else 0
  else F label

theorem mem_heads_units {label : String} :
    label ∈ rules.units.map (·.head) ↔ ∃ word, rules.NeedsUnit word ∧ label = unitLabel word := by
  rw [List.mem_map]
  constructor
  · rintro ⟨made, hm, rfl⟩
    obtain ⟨word, hword, hhead, -⟩ := has_units_iff.mp ⟨made, hm, rfl, rfl⟩
    exact ⟨word, hword, hhead⟩
  · rintro ⟨word, hword, rfl⟩
    obtain ⟨made, hm, hhead, -⟩ := has_units_iff.mpr ⟨word, hword, rfl, rfl⟩
    exact ⟨made, hm, hhead⟩

/-- A unit label has its word alone. -/
theorem unitSeries_unitLabel {word : String} (h : rules.NeedsUnit word) :
    rules.unitSeries F (unitLabel word) = .letter word := by
  have hmem : unitLabel word ∈ rules.units.map (·.head) := mem_heads_units.mpr ⟨word, h, rfl⟩
  have hinjective : Function.Injective unitLabel := fun _ _ => unitLabel_injective
  funext words
  have hwords : words.map unitLabel = [unitLabel word] ↔ words = [word] :=
    (List.map_injective_iff.mpr hinjective).eq_iff (b := [word])
  simp only [unitSeries, if_pos hmem, hwords, Series.letter]

theorem unitSeries_of_mem_symbols (hnew : rules.UnitsNew) {label : String}
    (h : .nonterminal label ∈ rules.symbols) : rules.unitSeries F label = F label := by
  refine if_neg fun hmem => ?_
  obtain ⟨word, hword, rfl⟩ := mem_heads_units.mp hmem
  exact hnew word _ hword.mem_symbols h rfl

theorem symbolSeries_unitSeries (hnew : rules.UnitsNew) {symbol : Symbol}
    (h : symbol ∈ rules.symbols) :
    symbolSeries (rules.unitSeries F) symbol = symbolSeries F symbol := by
  cases symbol with
  | terminal word => rfl
  | nonterminal label => exact unitSeries_of_mem_symbols hnew h

/-- With unit labels in place of words a body has the series that it had before. -/
theorem bodySeries_lifted (hnew : rules.UnitsNew) {rule : Rule ℚ} (hr : rule ∈ rules) :
    bodySeries (rules.unitSeries F) rule.lifted.body = bodySeries F rule.body := by
  have hmem : ∀ symbol ∈ rule.body, symbol ∈ rules.symbols :=
    fun symbol hs => Has.mem_symbols_of_mem ⟨rule, hr, rfl, rfl⟩ hs
  rw [body_lifted]
  split
  · rename_i hmixed
    refine bodySeries_map fun symbol hs => ?_
    cases symbol with
    | terminal word => exact unitSeries_unitLabel ⟨rule, hr, hmixed, hs⟩
    | nonterminal label => exact unitSeries_of_mem_symbols hnew (hmem _ hs)
  · exact bodySeries_congr fun symbol hs => symbolSeries_unitSeries hnew (hmem symbol hs)

theorem mass_lifted (hnew : rules.UnitsNew) (label : String) (words : List String) :
    mass (rules.map Rule.lifted) (bodyAt (rules.unitSeries F) label words) =
      rules.mass (bodyAt F label words) := by
  rw [mass, mass, List.map_map]
  refine congrArg List.sum (List.map_congr_left fun rule hr => ?_)
  rw [Function.comp_apply, weight_lifted, bodyAt, bodyAt, head_lifted, bodySeries_lifted hnew hr]

/-- If no two rules have one head, the mass of a head is that of its rule. -/
theorem mass_of_pairwise {others : Ruleset ℚ}
    (hpairwise : others.Pairwise fun rule other => rule.head ≠ other.head) {rule : Rule ℚ}
    (hr : rule ∈ others) (ψ : List Symbol → ℚ) :
    (others.mass fun head body => if head = rule.head then ψ body else 0) =
      rule.weight * ψ rule.body := by
  induction others with
  | nil => cases hr
  | cons first rest ih =>
    obtain ⟨hfirst, hrest⟩ := List.pairwise_cons.mp hpairwise
    rw [mass_cons]
    rcases List.mem_cons.mp hr with rfl | hr
    · rw [if_pos rfl, mass_eq_zero fun other ho => if_neg (hfirst other ho).symm, add_zero]
    · rw [if_neg (hfirst rule hr), mul_zero, zero_add, ih hrest hr]

/-- The rules of the unit labels give each its word. -/
theorem mass_units (label : String) (words : List String) :
    rules.units.mass (bodyAt F label words) =
      if label ∈ rules.units.map (·.head) then
        if words.map unitLabel = [label] then 1 else 0
      else 0 := by
  split
  · rename_i hmem
    obtain ⟨made, hm, rfl⟩ := List.mem_map.mp hmem
    obtain ⟨rule, -, hr⟩ := List.mem_flatMap.mp (mem_of_mem_firsts hm)
    obtain ⟨-, word, -, rfl⟩ := mem_unitsOf.mp hr
    have hmass := mass_of_pairwise (pairwise_firsts _) hm fun body => bodySeries F body words
    obtain ⟨word', hword, hhead⟩ := mem_heads_units.mp hmem
    have hseries := congrFun (unitSeries_unitLabel (F := F) hword) words
    rw [← hhead, unitSeries, if_pos hmem] at hseries
    rw [hseries, ← unitLabel_injective hhead]
    refine hmass.trans ?_
    simp [unitRule, Rule.lexical, bodySeries_singleton, symbolSeries]
  · rename_i hmem
    refine mass_eq_zero fun made hm => if_neg ?_
    rintro rfl
    exact hmem (List.mem_map_of_mem hm)

/-- A solution of the rules extends to the unit labels when words are extracted. -/
theorem Solves.extractTerminals (h : rules.Solves F) (hnew : rules.UnitsNew) :
    rules.extractTerminals.Solves (rules.unitSeries F) := by
  intro label words
  have hunits : mass (firsts (rules.flatMap unitsOf)) (bodyAt (rules.unitSeries F) label words) =
    _ := mass_units label words
  rw [Ruleset.extractTerminals, mass_append, mass_lifted hnew, ← h label words, hunits, unitSeries]
  split
  · rename_i hmem
    obtain ⟨word, hword, rfl⟩ := mem_heads_units.mp hmem
    have hnone : ∀ body, ¬ rules.Has (unitLabel word) body :=
      fun body hbody => hnew word _ hword.mem_symbols hbody.head_mem_symbols rfl
    rw [h.eq_zero hnone, zero_add]
  · rw [add_zero]

theorem isProper_unitSeries (hF : IsProper F) : IsProper (rules.unitSeries F) := by
  intro label
  rw [unitSeries]
  split
  · rfl
  · exact hF label

end Constituency.Ruleset
