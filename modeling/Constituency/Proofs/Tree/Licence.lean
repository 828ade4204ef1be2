import Mathlib.Data.List.Basic
import Constituency.Ruleset.Validation
import Constituency.Text.Case
import Constituency.Tree.Basic

/-!
# Licensed trees

A tree is licensed by a list of rules and a list of tokens if every node of it is: its rule is one
of the list, the body of the rule is what stands below the node, and the spans below it lie side by
side. The leaves of a licensed tree are the tokens of its span.
-/
namespace Constituency.Tree

variable {α : Type}

/-- Whether a node applies one of the rules to what stands below it. -/
def NodeFits (rules : Ruleset α) (tokens : List String) : Tree α → Prop
  | lexical rule token position =>
    rule ∈ rules ∧ tokens[position]? = some token ∧
      ∃ word, rule.body = [.terminal word] ∧ Text.lowerCase word = Text.lowerCase token
  | unary rule child => rule ∈ rules ∧ rule.body = [.nonterminal child.label]
  | binary rule left right =>
    rule ∈ rules ∧ rule.body = [.nonterminal left.label, .nonterminal right.label] ∧
      left.last + 1 = right.first

/-- Whether every node applies one of the rules to what stands below it. -/
def Licensed (rules : Ruleset α) (tokens : List String) (tree : Tree α) : Prop :=
  ∀ node ∈ tree.subtrees, node.NodeFits rules tokens

/-- A licensed tree with a given label over a given span. -/
structure IsDerivation (rules : Ruleset α) (tokens : List String) (label : String)
    (first last : Nat) (tree : Tree α) : Prop where
  licensed : tree.Licensed rules tokens
  label_eq : tree.label = label
  first_eq : tree.first = first
  last_eq : tree.last = last

/-- The tokens of a span. -/
def spanTokens (tokens : List String) (first last : Nat) : List String :=
  (tokens.drop first).take (last + 1 - first)

theorem spanTokens_append (tokens : List String) {first split last : Nat}
    (hl : first ≤ split) (hr : split < last) :
    spanTokens tokens first split ++ spanTokens tokens (split + 1) last =
      spanTokens tokens first last := by
  have hd : tokens.drop (split + 1) = (tokens.drop first).drop (split + 1 - first) := by
    rw [List.drop_drop]; congr 1; omega
  have ht : last + 1 - first = (split + 1 - first) + (last + 1 - (split + 1)) := by omega
  rw [spanTokens, spanTokens, spanTokens, hd, ht, List.take_add]

variable {rules : Ruleset α} {tokens : List String}

theorem licensed_lexical {rule : Rule α} {token : String} {position : Nat} :
    (lexical rule token position).Licensed rules tokens ↔
      (lexical rule token position).NodeFits rules tokens := by
  simp [Licensed, subtrees]

theorem licensed_unary {rule : Rule α} {child : Tree α} :
    (unary rule child).Licensed rules tokens ↔
      (unary rule child).NodeFits rules tokens ∧ child.Licensed rules tokens := by
  simp [Licensed, subtrees]

theorem licensed_binary {rule : Rule α} {left right : Tree α} :
    (binary rule left right).Licensed rules tokens ↔
      (binary rule left right).NodeFits rules tokens ∧
        left.Licensed rules tokens ∧ right.Licensed rules tokens := by
  simp only [Licensed, subtrees, List.mem_cons, List.mem_append, or_imp, forall_and, forall_eq]

namespace Licensed

theorem first_le_last {tree : Tree α} (h : tree.Licensed rules tokens) :
    tree.first ≤ tree.last := by
  induction tree with
  | lexical rule token position => exact Nat.le_refl _
  | unary rule child ih => exact ih (licensed_unary.mp h).2
  | binary rule left right ihl ihr =>
    obtain ⟨⟨_, _, hadj⟩, hl, hr⟩ := licensed_binary.mp h
    have hl' := ihl hl
    have hr' := ihr hr
    simp only [first, last]
    omega

theorem last_lt {tree : Tree α} (h : tree.Licensed rules tokens) :
    tree.last < tokens.length := by
  induction tree with
  | lexical rule token position =>
    obtain ⟨_, ht, _⟩ := licensed_lexical.mp h
    exact (List.getElem?_eq_some_iff.mp ht).1
  | unary rule child ih => exact ih (licensed_unary.mp h).2
  | binary rule left right ihl ihr => exact ihr (licensed_binary.mp h).2.2

/-- The leaves are the tokens of the span, in order and as they are spelled. -/
theorem leaves_eq {tree : Tree α} (h : tree.Licensed rules tokens) :
    tree.leaves = spanTokens tokens tree.first tree.last := by
  induction tree with
  | lexical rule token position =>
    obtain ⟨_, ht, _⟩ := licensed_lexical.mp h
    obtain ⟨hlt, rfl⟩ := List.getElem?_eq_some_iff.mp ht
    simp [leaves, first, last, spanTokens, List.take_one, hlt]
  | unary rule child ih => exact ih (licensed_unary.mp h).2
  | binary rule left right ihl ihr =>
    obtain ⟨⟨_, _, hadj⟩, hl, hr⟩ := licensed_binary.mp h
    have hl' := hl.first_le_last
    have hr' := hr.first_le_last
    simp only [leaves, first, last, ihl hl, ihr hr, ← hadj]
    exact spanTokens_append tokens hl' (by omega)

end Licensed

end Constituency.Tree
