import Constituency.Grammar.Basic

/-!
# What the look-ups find

The shape of a rule is a reading of its body, and each look-up of a grammar finds the rules whose
bodies have the shape and the labels or the word that it asks for.
-/
namespace Constituency

variable {α : Type}

namespace Rule

theorem shape_eq_lexical_iff {rule : Rule α} {word : String} :
    rule.shape = .lexical word ↔ rule.body = [.terminal word] := by
  unfold shape
  split <;> simp_all

theorem shape_eq_unary_iff {rule : Rule α} {child : String} :
    rule.shape = .unary child ↔ rule.body = [.nonterminal child] := by
  unfold shape
  split <;> simp_all

theorem shape_eq_binary_iff {rule : Rule α} {left right : String} :
    rule.shape = .binary left right ↔ rule.body = [.nonterminal left, .nonterminal right] := by
  unfold shape
  split <;> simp_all

theorem word?_eq_some_iff {rule : Rule α} {word : String} :
    rule.word? = some word ↔ rule.body = [.terminal word] := by
  rw [← shape_eq_lexical_iff, word?]
  cases rule.shape <;> simp

theorem unaryChild?_eq_some_iff {rule : Rule α} {child : String} :
    rule.unaryChild? = some child ↔ rule.body = [.nonterminal child] := by
  rw [← shape_eq_unary_iff, unaryChild?]
  cases rule.shape <;> simp

theorem unaryChild?_eq_none_iff {rule : Rule α} :
    rule.unaryChild? = none ↔ ∀ child, rule.body ≠ [.nonterminal child] := by
  simp only [Option.eq_none_iff_forall_ne_some, ne_eq, unaryChild?_eq_some_iff]

theorem binaryChildren?_eq_some_iff {rule : Rule α} {left right : String} :
    rule.binaryChildren? = some (left, right) ↔
      rule.body = [.nonterminal left, .nonterminal right] := by
  rw [← shape_eq_binary_iff, binaryChildren?]
  cases rule.shape <;> simp

end Rule

namespace Grammar

variable [Weight α] {g : Grammar α} {rule : Rule α}

/-- Every rule of a grammar is complete, and its weight is a probability up to the tolerance. -/
theorem valid_of_mem (h : rule ∈ g.rules) :
    rule.head ≠ "" ∧ rule.body ≠ [] ∧ 0 ≤ rule.weight ∧ rule.weight ≤ 1 + Weight.tolerance := by
  have hfault : rule.fault? .probabilities = none :=
    List.findSome?_eq_none_iff.mp g.rules_valid rule h
  obtain ⟨hhead, hbody, hadmits⟩ := Rule.fault?_eq_none_iff.mp hfault
  exact ⟨hhead, hbody, of_decide_eq_true hadmits⟩

theorem mem_lexicalRules {key : String} :
    rule ∈ g.lexicalRules key ↔
      rule ∈ g.rules ∧ ∃ word, rule.body = [.terminal word] ∧ Text.lowerCase word = key := by
  rw [lexicalRules_eq_filter, List.mem_filter, decide_eq_true_iff, Index.wordKey?,
    Option.map_eq_some_iff]
  simp only [Rule.word?_eq_some_iff]

theorem mem_unaryRules {child : String} :
    rule ∈ g.unaryRules child ↔ rule ∈ g.rules ∧ rule.body = [.nonterminal child] := by
  simp [unaryRules_eq_filter, Rule.unaryChild?_eq_some_iff]

theorem mem_binaryRules {left right : String} :
    rule ∈ g.binaryRules left right ↔
      rule ∈ g.rules ∧ rule.body = [.nonterminal left, .nonterminal right] := by
  simp [binaryRules_eq_filter, Rule.binaryChildren?_eq_some_iff]

end Grammar

end Constituency
