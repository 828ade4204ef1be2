import Constituency.Proofs.ExactWeights
import Constituency.Proofs.NormalForm.NormalRules

/-!
# Grammars in normal form

A grammar is brought to normal form with the rules in normal form and its own start label. The
conversion of rules refuses nothing but faulty ones, and whatever it is given, the rules that come
out have one word or two labels each; a chart can use all of them.
-/
namespace Constituency

variable {α : Type}

theorem Rule.isNormal_iff {rule : Rule α} :
    rule.isNormal = true ↔ (∃ word, rule.body = [.terminal word]) ∨
      ∃ left right, rule.body = [.nonterminal left, .nonterminal right] := by
  simp only [← shape_eq_lexical_iff, ← shape_eq_binary_iff, isNormal]
  cases rule.shape <;> simp

/-- A chart can use every rule in normal form. -/
theorem Rule.shape_ne_other_of_isNormal {rule : Rule α} (h : rule.isNormal = true) :
    rule.shape ≠ .other := by
  intro hother
  simp [isNormal, hother] at h

variable [Weight α]

theorem Ruleset.validate_positiveProbabilities_iff {rules : Ruleset α} :
    rules.validate .positiveProbabilities = .ok () ↔
      ∀ rule ∈ rules, rule.head ≠ "" ∧ rule.body ≠ [] ∧
        0 < rule.weight ∧ rule.weight ≤ 1 + Weight.tolerance := by
  simp only [validate_eq_ok_iff, WeightRange.admits, decide_eq_true_iff]

namespace Grammar

/-- Conversion makes the grammar of the rules in normal form and keeps the start label. -/
theorem exists_of_toNormalForm {g c : Grammar α} (h : g.toNormalForm = .ok c) :
    g.rules.validate .positiveProbabilities = .ok () ∧
      ∃ made, ofRules g.rules.normalForm = .ok made ∧ c = made.withStart g.start := by
  rw [toNormalForm, rebuild] at h
  cases hrules : g.rules.toNormalForm with
  | error e =>
    rw [hrules] at h
    cases h
  | ok rules =>
    rw [hrules] at h
    obtain ⟨hvalid, rfl⟩ := Ruleset.toNormalForm_eq_ok_iff.mp hrules
    refine ⟨hvalid, ?_⟩
    cases hc : ofRules g.rules.normalForm with
    | error e =>
      simp only [bind, Except.bind, hc] at h
      cases h
    | ok made =>
      simp only [bind, Except.bind, hc, pure, Except.pure, Except.ok.injEq] at h
      exact ⟨made, rfl, h.symm⟩

/-- The grammar in normal form has the rules in normal form. -/
theorem rules_of_toNormalForm {g c : Grammar α} (h : g.toNormalForm = .ok c) :
    g.rules.validate .positiveProbabilities = .ok () ∧ c.rules = g.rules.normalForm := by
  obtain ⟨hvalid, made, hmade, rfl⟩ := exists_of_toNormalForm h
  exact ⟨hvalid, (eq_of_ofRules hmade).1⟩

theorem start_of_toNormalForm {g c : Grammar α} (h : g.toNormalForm = .ok c) :
    c.start = g.start := by
  obtain ⟨-, made, -, rfl⟩ := exists_of_toNormalForm h
  rfl

/-- If the rules in normal form have a grammar, they have the grammar in normal form. -/
theorem exists_toNormalForm {g : Grammar α}
    (hvalid : g.rules.validate .positiveProbabilities = .ok ()) (hne : g.rules.normalForm ≠ [])
    (hfault : g.rules.normalForm.fault? .probabilities = none) :
    ∃ c, g.toNormalForm = .ok c := by
  obtain ⟨first, rest, hcons⟩ := List.exists_cons_of_ne_nil hne
  have hrules : g.rules.toNormalForm = .ok (first :: rest) :=
    Ruleset.toNormalForm_eq_ok_iff.mpr ⟨hvalid, hcons.symm⟩
  rw [hcons] at hfault
  rw [toNormalForm, rebuild, hrules]
  simp only [bind, Except.bind, ofRules_cons hfault]
  exact ⟨_, rfl⟩

/-- Every rule of a grammar in normal form has one word or two labels. -/
theorem body_of_toNormalForm {g c : Grammar α} (h : g.toNormalForm = .ok c) {head : String}
    {body : List Symbol} (hrule : c.rules.Has head body) :
    (∃ word, body = [.terminal word]) ∨
      ∃ left right, body = [.nonterminal left, .nonterminal right] := by
  obtain ⟨hvalid, hrules⟩ := rules_of_toNormalForm h
  rw [hrules] at hrule
  exact Ruleset.body_normalForm (fun _ _ h => Ruleset.body_ne_nil_of_validate hvalid h) hrule

theorem unaryRules_of_toNormalForm {g c : Grammar α} (h : g.toNormalForm = .ok c)
    (child : String) : c.unaryRules child = [] := by
  rw [List.eq_nil_iff_forall_not_mem]
  intro rule hr
  obtain ⟨hmem, hbody⟩ := mem_unaryRules.mp hr
  rcases body_of_toNormalForm h ⟨rule, hmem, rfl, hbody⟩ with ⟨word, h⟩ | ⟨left, right, h⟩ <;>
    cases h

/-- No rule of a grammar in normal form is one that a chart cannot use. -/
theorem unusable_of_isNormal {g : Grammar α} (h : g.isNormal = true) : g.unusable = 0 := by
  refine List.countP_eq_zero.mpr fun rule hr => ?_
  have hrule : rule.isNormal = true := List.all_eq_true.mp h rule hr
  rw [decide_eq_true_iff]
  exact Rule.shape_ne_other_of_isNormal hrule

/-- Rules are brought to normal form exactly if each has a head, a body and a positive probability,
and then every rule that comes out has one word or two labels. So whatever grammar comes out is in
normal form, and has no rule that a chart cannot use. -/
theorem toNormalForm_shapes :
    (∀ rules : Ruleset α, (∃ made, rules.toNormalForm = .ok made) ↔
      ∀ rule ∈ rules, rule.head ≠ "" ∧ rule.body ≠ [] ∧
        0 < rule.weight ∧ rule.weight ≤ 1 + Weight.tolerance) ∧
    (∀ rules made : Ruleset α, rules.toNormalForm = .ok made → ∀ rule ∈ made,
      (∃ word, rule.body = [.terminal word]) ∨
        ∃ left right, rule.body = [.nonterminal left, .nonterminal right]) ∧
    ∀ g c : Grammar α, g.toNormalForm = .ok c → c.isNormal = true ∧ c.unusable = 0 := by
  refine ⟨fun rules => ?_, fun rules made h rule hr => ?_, fun g c h => ?_⟩
  · rw [← Ruleset.validate_positiveProbabilities_iff]
    constructor
    · rintro ⟨made, h⟩
      exact (Ruleset.toNormalForm_eq_ok_iff.mp h).1
    · intro hvalid
      exact ⟨_, Ruleset.toNormalForm_eq_ok_iff.mpr ⟨hvalid, rfl⟩⟩
  · obtain ⟨hvalid, rfl⟩ := Ruleset.toNormalForm_eq_ok_iff.mp h
    exact Ruleset.body_normalForm (fun _ _ => Ruleset.body_ne_nil_of_validate hvalid)
      ⟨rule, hr, rfl, rfl⟩
  · have hnormal : c.isNormal = true := by
      refine List.all_eq_true.mpr fun rule hr => Rule.isNormal_iff.mpr ?_
      exact body_of_toNormalForm h ⟨rule, hr, rfl, rfl⟩
    exact ⟨hnormal, unusable_of_isNormal hnormal⟩

example : (Weight.tolerance : Float) = 1e-9 := rfl

/-- Rules with a loop, a cycle, a repetition, and a long body that begins and ends with words. -/
def tangledRules : Ruleset ℚ :=
  [.unary "S" "S" (1 / 4), .unary "S" "A|x_" (1 / 4), .unary "A|x_" "S" (1 / 2),
    .lexical "A|x_" "x" (1 / 4), .lexical "A|x_" "x" (1 / 4),
    { head := "S", weight := 1 / 2, language := some "en",
      body := [.terminal "x", .nonterminal "A|x_", .terminal "_x", .nonterminal "S",
        .terminal "|"] }]

/-- The grammar of these rules. -/
def tangled : Grammar ℚ where
  start := "S"
  rules := tangledRules
  index := .ofRules tangledRules
  rules_ne_nil := List.cons_ne_nil _ _
  rules_valid := by decide +kernel
  index_eq := rfl

/-- Neither cycles nor labels that look made up are in the way. -/
theorem toNormalForm_shapes_tangled :
    ∃ made c, tangledRules.toNormalForm = .ok made ∧ tangled.toNormalForm = .ok c ∧
      (∀ rule ∈ made, (∃ word, rule.body = [.terminal word]) ∨
        ∃ left right, rule.body = [.nonterminal left, .nonterminal right]) ∧
      c.isNormal = true ∧ c.unusable = 0 := by
  obtain ⟨hconverts, hshapes, hgrammars⟩ := toNormalForm_shapes (α := ℚ)
  obtain ⟨made, hmade⟩ := (hconverts tangledRules).mpr (by decide +kernel)
  obtain ⟨hvalid, rfl⟩ := Ruleset.toNormalForm_eq_ok_iff.mp hmade
  have hnormal : tangledRules.normalForm.fault? .probabilities = none := by decide +kernel
  obtain ⟨c, hc⟩ := exists_toNormalForm (g := tangled) hvalid (by decide +kernel) hnormal
  exact ⟨_, c, hmade, hc, hshapes tangledRules _ hmade, hgrammars tangled c hc⟩

end Grammar

end Constituency
