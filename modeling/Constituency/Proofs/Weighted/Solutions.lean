import Constituency.Proofs.Weighted.Series
import Constituency.Ruleset.Normalization

/-!
# Solutions

The mass of a list of rules is a weighted sum over them. It does not change when rules are merged. A
valuation solves the rules if the series of a label is the mass of its bodies. Rules with neither
empty nor unary bodies have one proper solution at most, since the words of every body but a single
word are spread over shorter lists (`eq_of_solves`).
-/
namespace Constituency.Ruleset

variable {rules others : Ruleset ℚ} {φ ψ : String → List Symbol → ℚ} {F G : String → Series}

/-- The weighted sum over all rules of what a head and a body give. -/
def mass (rules : Ruleset ℚ) (φ : String → List Symbol → ℚ) : ℚ :=
  (rules.map fun rule => rule.weight * φ rule.head rule.body).sum

@[simp] theorem mass_nil : mass [] φ = 0 := rfl

@[simp] theorem mass_cons (rule : Rule ℚ) :
    mass (rule :: rules) φ = rule.weight * φ rule.head rule.body + rules.mass φ := by
  simp [mass]

theorem mass_append : mass (rules ++ others) φ = rules.mass φ + others.mass φ := by
  simp [mass]

theorem mass_flatMap {ι : Type} (items : List ι) (f : ι → Ruleset ℚ) :
    mass (items.flatMap f) φ = (items.map fun i => (f i).mass φ).sum := by
  induction items with
  | nil => rfl
  | cons i items ih => rw [List.flatMap_cons, mass_append, ih, List.map_cons, List.sum_cons]

theorem mass_congr (h : ∀ rule ∈ rules, φ rule.head rule.body = ψ rule.head rule.body) :
    rules.mass φ = rules.mass ψ := by
  rw [mass, mass, List.map_congr_left fun rule hr => by rw [h rule hr]]

theorem mass_eq_zero (h : ∀ rule ∈ rules, φ rule.head rule.body = 0) : rules.mass φ = 0 := by
  rw [mass_congr (ψ := fun _ _ => 0) h, mass]
  simp

theorem mass_absorb (rule : Rule ℚ) :
    (absorb rules rule).mass φ = rules.mass φ + rule.weight * φ rule.head rule.body := by
  induction rules with
  | nil => simp [absorb]
  | cons first rest ih =>
    rw [absorb]
    split
    · rename_i hsame
      simp only [Rule.sameFrame, Bool.and_eq_true, decide_eq_true_eq] at hsame
      rw [mass_cons, mass_cons, hsame.1.1, hsame.1.2]
      ring
    · rw [mass_cons, mass_cons, ih]
      ring

/-- Merging rules keeps every mass. -/
theorem mass_merge : rules.merge.mass φ = rules.mass φ := by
  have hfold : ∀ (others merged : Ruleset ℚ),
      (others.foldl absorb merged).mass φ = merged.mass φ + others.mass φ := by
    intro others
    induction others with
    | nil => simp
    | cons rule others ih =>
      intro merged
      rw [List.foldl_cons, ih, mass_absorb, mass_cons, add_assoc]
  rw [merge, hfold, mass_nil, zero_add]

/-- What a body gives where a label is rewritten to it. -/
def bodiesAt (φ : List Symbol → ℚ) (label head : String) (body : List Symbol) : ℚ :=
  if head = label then φ body else 0

/-- The mass at one label is a sum over its rules. -/
theorem mass_bodiesAt (rules : Ruleset ℚ) (φ : List Symbol → ℚ) (label : String) :
    rules.mass (bodiesAt φ label) =
      ((rules.filter (·.head = label)).map fun rule => rule.weight * φ rule.body).sum := by
  induction rules with
  | nil => rfl
  | cons rule rules ih =>
    rw [mass_cons, ih, bodiesAt, List.filter_cons]
    by_cases h : rule.head = label <;> simp [h]

/-- The total weight of the rules of a label. -/
def total (rules : Ruleset ℚ) (label : String) : ℚ :=
  (rules.weightsOf label).sum

theorem total_eq_mass (rules : Ruleset ℚ) (label : String) :
    rules.total label = rules.mass (bodiesAt (fun _ => 1) label) := by
  simp only [mass_bodiesAt, mul_one]
  rfl

/-- A label without rules has no mass. -/
theorem mass_bodiesAt_eq_zero {φ : List Symbol → ℚ} {label : String}
    (hlabel : ∀ body, ¬ rules.Has label body) : rules.mass (bodiesAt φ label) = 0 := by
  refine mass_eq_zero fun rule hr => if_neg ?_
  rintro rfl
  exact hlabel rule.body ⟨rule, hr, rfl, rfl⟩

/-- Whether all weights are positive. -/
def IsPositive (rules : Ruleset ℚ) : Prop :=
  ∀ rule ∈ rules, 0 < rule.weight

/-! ### Solutions -/

/-- What the body of a rule for a label gives a list of words. -/
def bodyAt (F : String → Series) (label : String) (words : List String) (head : String)
    (body : List Symbol) : ℚ :=
  if head = label then bodySeries F body words else 0

/-- Whether every label has the weighted sum of the series of its bodies. -/
def Solves (rules : Ruleset ℚ) (F : String → Series) : Prop :=
  ∀ label words, F label words = rules.mass (bodyAt F label words)

/-- A label without rules has nothing. -/
theorem Solves.eq_zero (h : rules.Solves F) {label : String}
    (hlabel : ∀ body, ¬ rules.Has label body) (words : List String) : F label words = 0 := by
  rw [h label words]
  exact mass_bodiesAt_eq_zero hlabel

/-- Without empty and unary bodies two proper solutions are equal. -/
theorem eq_of_solves (hempty : ∀ head body, rules.Has head body → body ≠ [])
    (hunary : ∀ head body, rules.Has head body → ∀ child, body ≠ [.nonterminal child])
    (hF : rules.Solves F) (hG : rules.Solves G) (hFproper : IsProper F) (hGproper : IsProper G) :
    F = G := by
  have hall : ∀ n label words, words.length = n → F label words = G label words := by
    intro n
    induction n using Nat.strong_induction_on with
    | _ n ih =>
      intro label words hlength
      rw [hF label words, hG label words]
      refine mass_congr fun rule hr => ?_
      have hrule : rules.Has rule.head rule.body := ⟨rule, hr, rfl, rfl⟩
      have hbody : bodySeries F rule.body words = bodySeries G rule.body words := by
        match hb : rule.body with
        | [] => exact absurd hb (hempty _ _ hrule)
        | [.terminal word] => rw [bodySeries_singleton, bodySeries_singleton]; rfl
        | [.nonterminal child] => exact absurd hb (hunary _ _ hrule child)
        | first :: second :: rest =>
          refine bodySeries_eq_of_shorter hFproper hGproper
            (fun label words hlt => ih words.length hlt label words rfl) _ _ (.inr ⟨hlength, ?_⟩)
          simp
      rw [bodyAt, bodyAt, hbody]
  funext label words
  exact hall words.length label words rfl

end Constituency.Ruleset
