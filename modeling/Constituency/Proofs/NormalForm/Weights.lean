import Constituency.Proofs.NormalForm.NormalRules

/-!
# What the weights of rules in normal form are made of

Conversion to normal form makes weights out of the weights given and the number one, by sums,
products and quotients; languages are handed on. So a property of weights that these operations keep
goes over to the rules in normal form, and so does any property of languages (`Carry.normalForm`).
-/
namespace Constituency.Ruleset

variable {α : Type}

/-- A property of weights that the conversion keeps. -/
structure Kept [Weight α] (P : α → Prop) : Prop where
  one : P 1
  zero_add : ∀ {a}, P a → P (0 + a)
  add : ∀ {a b}, P a → P b → P (a + b)
  mul : ∀ {a b}, P a → P b → P (a * b)
  div : ∀ {a b}, P a → P b → P (a / b)

/-- Whether the weights and the languages of all rules have a property each. -/
def Carry (P : α → Prop) (L : Option String → Prop) (rules : Ruleset α) : Prop :=
  ∀ rule ∈ rules, P rule.weight ∧ L rule.language

variable {P : α → Prop} {L : Option String → Prop} {rules others : Ruleset α}

theorem Carry.of_subset (h : rules.Carry P L) (hsub : others ⊆ rules) : others.Carry P L :=
  fun rule hr => h rule (hsub hr)

theorem Carry.append (h : rules.Carry P L) (h' : others.Carry P L) : (rules ++ others).Carry P L :=
  fun rule hr => (List.mem_append.mp hr).elim (h rule) (h' rule)

theorem Carry.flatMap {β : Type} {items : List β} {f : β → Ruleset α}
    (h : ∀ item ∈ items, (f item).Carry P L) : Carry P L (items.flatMap f) := by
  intro rule hr
  obtain ⟨item, hi, hr⟩ := List.mem_flatMap.mp hr
  exact h item hi rule hr

variable [Weight α]

/-! ### Merging -/

theorem Carry.absorb (hP : Kept P) (h : rules.Carry P L) {rule : Rule α}
    (hr : P rule.weight ∧ L rule.language) : (absorb rules rule).Carry P L := by
  induction rules with
  | nil => simpa [Ruleset.absorb, Carry] using hr
  | cons first rest ih =>
    obtain ⟨hfirst, hrest⟩ := List.forall_mem_cons.mp h
    rw [Ruleset.absorb]
    split
    · exact List.forall_mem_cons.mpr ⟨⟨hP.add hfirst.1 hr.1, hfirst.2⟩, hrest⟩
    · exact List.forall_mem_cons.mpr ⟨hfirst, ih hrest⟩

theorem Carry.merge (hP : Kept P) (h : rules.Carry P L) : rules.merge.Carry P L := by
  have hfold : ∀ others merged : Ruleset α, others.Carry P L → merged.Carry P L →
      Carry P L (others.foldl Ruleset.absorb merged) := by
    intro others
    induction others with
    | nil => exact fun merged _ hm => hm
    | cons rule others ih =>
      intro merged ho hm
      obtain ⟨hrule, hothers⟩ := List.forall_mem_cons.mp ho
      exact ih _ hothers (hm.absorb hP hrule)
  exact hfold rules [] h fun _ hm => absurd hm List.not_mem_nil

/-! ### The three steps -/

/-- Products along chains. -/
theorem weight_of_mem_expansions (hP : Kept P) (h : rules.Carry P L) {available : List String}
    {label : String} {weight : α} (hweight : P weight) {e : List Symbol × α}
    (he : e ∈ expansions rules.goingOn available label weight) : P e.2 := by
  induction available, label, weight using expansions.induct with
  | case1 available label weight hmem ih =>
    obtain ⟨-, rule, hr, hrule⟩ := mem_expansions_iff.mp he
    have hproduct : P (weight * rule.weight) := hP.mul hweight (h rule (mem_goingOn.mp hr).1).1
    rcases hrule with ⟨-, rfl⟩ | ⟨child, -, he⟩
    · exact hproduct
    · exact ih rule child hproduct he
  | case2 available label weight hmem => exact absurd (mem_expansions_iff.mp he).1 hmem

/-- What takes the place of the rules before it is merged. -/
theorem Carry.withoutUnary (hP : Kept P) (h : rules.Carry P L) :
    Carry P L (rules.nonLoops.flatMap
      (Ruleset.withoutUnary rules.goingOn rules.chainLabels)) := by
  refine Carry.flatMap fun rule hr => ?_
  have hrule := h rule (List.mem_filter.mp hr).1
  intro made hm
  rw [Ruleset.withoutUnary] at hm
  cases hc : rule.unaryChild? with
  | some child =>
    rw [hc] at hm
    obtain ⟨e, he, rfl⟩ := List.mem_map.mp hm
    exact ⟨weight_of_mem_expansions hP h hrule.1 he, hrule.2⟩
  | none =>
    rw [hc] at hm
    obtain rfl := List.mem_singleton.mp hm
    exact hrule

theorem Carry.eliminateUnary (hP : Kept P) (h : rules.Carry P L) :
    rules.eliminateUnary.Carry P L := by
  rw [eliminateUnary_eq]
  exact (h.withoutUnary hP).merge hP

/-- The total of the head of a rule is a sum with at least one part. -/
theorem Carry.total (hP : Kept P) (h : rules.Carry P L) {rule : Rule α} (hr : rule ∈ rules) :
    P (rules.totals.getD rule.head 0) := by
  have hfold : ∀ ws : List α, (∀ w ∈ ws, P w) → ∀ total, P total → P (ws.foldl (· + ·) total) := by
    intro ws
    induction ws with
    | nil => exact fun _ total ht => ht
    | cons w ws ih =>
      intro hws total ht
      obtain ⟨hw, hws⟩ := List.forall_mem_cons.mp hws
      exact ih hws _ (hP.add ht hw)
  have hweights : ∀ w ∈ rules.weightsOf rule.head, P w := by
    intro w hw
    obtain ⟨other, ho, rfl⟩ := List.mem_map.mp hw
    exact (h other (List.mem_filter.mp ho).1).1
  have hmem : rule.weight ∈ rules.weightsOf rule.head :=
    List.mem_map.mpr ⟨rule, List.mem_filter.mpr ⟨hr, by simp⟩, rfl⟩
  rw [getD_totals, Weight.sum]
  cases hws : rules.weightsOf rule.head with
  | nil => exact absurd (hws ▸ hmem) List.not_mem_nil
  | cons w ws =>
    rw [hws] at hweights
    obtain ⟨hw, hrest⟩ := List.forall_mem_cons.mp hweights
    exact hfold ws hrest _ (hP.zero_add hw)

theorem Carry.binarize (hP : Kept P) (h : rules.Carry P L) : rules.binarize.Carry P L := by
  have hlinks : Carry P L (Ruleset.merge ((rules.filter Rule.isLong).flatMap Rule.chain)) := by
    refine Carry.merge hP (Carry.flatMap fun rule hr link hl => ?_)
    rw [Rule.chain_eq] at hl
    obtain ⟨s, -, rfl⟩ := List.mem_map.mp hl
    exact h rule (List.mem_filter.mp hr).1
  refine Carry.append (h.of_subset List.filter_sublist.subset) fun made hm => ?_
  obtain ⟨link, hl, rfl⟩ := List.mem_map.mp hm
  split
  · exact ⟨hP.div (hlinks link hl).1 (hlinks.total hP hl), (hlinks link hl).2⟩
  · exact hlinks link hl

theorem Carry.extractTerminals (hP : Kept P) (h : rules.Carry P L) :
    rules.extractTerminals.Carry P L := by
  refine Carry.append (fun made hm => ?_) fun made hm => ?_
  · obtain ⟨rule, hr, rfl⟩ := List.mem_map.mp hm
    rw [Rule.lifted]
    split <;> exact h rule hr
  · obtain ⟨rule, hr, hm⟩ := List.mem_flatMap.mp (mem_of_mem_firsts hm)
    obtain ⟨-, word, -, rfl⟩ := mem_unitsOf.mp hm
    exact ⟨hP.one, (h rule hr).2⟩

/-- What the operations keep goes over to the rules in normal form. -/
theorem Carry.normalForm (hP : Kept P) (h : rules.Carry P L) : rules.normalForm.Carry P L :=
  ((h.eliminateUnary hP).binarize hP).extractTerminals hP

end Constituency.Ruleset
