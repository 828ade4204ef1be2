import Mathlib.Tactic.Tauto
import Constituency.NormalForm.Merging
import Constituency.Proofs.Grammar.Lookups

/-!
# What rules rewrite

Which rewritings a list of rules has does not hang on weights, languages and repetitions. Merging
rules keeps them all. A unary rule is a step from its head to its child.
-/
namespace Constituency.Ruleset

variable {α : Type}

/-- Whether some rule rewrites a label to a body. -/
def Has (rules : Ruleset α) (head : String) (body : List Symbol) : Prop :=
  ∃ rule ∈ rules, rule.head = head ∧ rule.body = body

instance (rules : Ruleset α) (head : String) (body : List Symbol) :
    Decidable (rules.Has head body) :=
  inferInstanceAs (Decidable (∃ rule ∈ rules, _))

variable {rules others : Ruleset α} {rule : Rule α} {head child : String} {body : List Symbol}

@[simp] theorem not_has_nil : ¬ Has ([] : Ruleset α) head body := by
  simp [Has]

theorem has_cons :
    Has (rule :: rules) head body ↔
      (rule.head = head ∧ rule.body = body) ∨ rules.Has head body := by
  simp [Has]

theorem has_append :
    Has (rules ++ others) head body ↔ rules.Has head body ∨ others.Has head body := by
  simp only [Has, List.mem_append, or_and_right, exists_or]

theorem has_flatMap {β : Type} {items : List β} {f : β → Ruleset α} :
    Has (items.flatMap f) head body ↔ ∃ item ∈ items, (f item).Has head body := by
  simp only [Has, List.mem_flatMap]
  constructor
  · rintro ⟨rule, ⟨item, hi, hr⟩, h⟩
    exact ⟨item, hi, rule, hr, h⟩
  · rintro ⟨item, hi, rule, hr, h⟩
    exact ⟨rule, ⟨item, hi, hr⟩, h⟩

/-- Rules that keep their heads and bodies have the same rewritings. -/
theorem has_map {f : Rule α → Rule α} (hf : ∀ rule, (f rule).head = rule.head ∧
    (f rule).body = rule.body) : Has (rules.map f) head body ↔ rules.Has head body := by
  simp only [Has, List.mem_map]
  constructor
  · rintro ⟨_, ⟨rule, hr, rfl⟩, h⟩
    exact ⟨rule, hr, (hf rule).1 ▸ h.1, (hf rule).2 ▸ h.2⟩
  · rintro ⟨rule, hr, h⟩
    exact ⟨f rule, ⟨rule, hr, rfl⟩, (hf rule).1.trans h.1, (hf rule).2.trans h.2⟩

section Merging

variable [Weight α]

theorem has_absorb :
    (absorb rules rule).Has head body ↔
      rules.Has head body ∨ (rule.head = head ∧ rule.body = body) := by
  induction rules with
  | nil => simp [absorb, has_cons]
  | cons first rest ih =>
    rw [absorb]
    split
    · rename_i hsame
      simp only [Rule.sameFrame, Bool.and_eq_true, decide_eq_true_eq] at hsame
      rw [has_cons, has_cons, hsame.1.1, hsame.1.2]
      tauto
    · rw [has_cons, has_cons, ih]
      tauto

theorem has_foldl_absorb :
    (others.foldl absorb rules).Has head body ↔ rules.Has head body ∨ others.Has head body := by
  induction others generalizing rules with
  | nil => simp
  | cons rule others ih =>
    rw [List.foldl_cons, ih, has_absorb, has_cons]
    tauto

/-- Merging keeps all rewritings and adds none. -/
@[simp] theorem has_merge : rules.merge.Has head body ↔ rules.Has head body := by
  rw [merge, has_foldl_absorb]
  simp

end Merging

/-! ### Unary steps -/

/-- Whether a unary rule rewrites a label to a child. -/
def Steps (rules : Ruleset α) (label child : String) : Prop :=
  rules.Has label [.nonterminal child]

theorem steps_of_mem (hr : rule ∈ rules) (hc : rule.unaryChild? = some child) :
    rules.Steps rule.head child :=
  ⟨rule, hr, rfl, Rule.unaryChild?_eq_some_iff.mp hc⟩

end Constituency.Ruleset
