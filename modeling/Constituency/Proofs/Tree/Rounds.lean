import Constituency.Proofs.Tree.Licence

/-!
# Trees that go round no cycle

Going round a cycle of unary rules puts a node above a node with the same label and the same span.
In a licensed tree only unary nodes leave the span as it is, so that all such nodes lie on the spine
of the upper one, from which unary nodes lead down.
-/
namespace Constituency.Tree

variable {α : Type}

/-- The nodes below the top. -/
def properSubtrees (tree : Tree α) : List (Tree α) :=
  tree.subtrees.tail

/-- Whether no node has the label and the span of a node below it. -/
def NoRounds (tree : Tree α) : Prop :=
  ∀ node ∈ tree.subtrees, ∀ other ∈ node.properSubtrees, other.constituent ≠ node.constituent

/-- The nodes from the top down, as far as unary nodes lead. -/
def spine : Tree α → List (Tree α)
  | unary rule child => unary rule child :: child.spine
  | lexical rule token position => [lexical rule token position]
  | binary rule left right => [binary rule left right]

variable {rule : Rule α} {child left right tree node : Tree α}

theorem noRounds_lexical (rule : Rule α) (token : String) (position : Nat) :
    (lexical rule token position).NoRounds := by
  simp [NoRounds, properSubtrees, subtrees]

theorem noRounds_unary_iff :
    (unary rule child).NoRounds ↔
      (∀ other ∈ child.subtrees, other.constituent ≠ (unary rule child).constituent) ∧
        child.NoRounds := by
  simp only [NoRounds, subtrees, List.mem_cons, forall_eq_or_imp]
  rfl

theorem noRounds_binary_iff :
    (binary rule left right).NoRounds ↔
      (∀ other ∈ left.subtrees ++ right.subtrees,
        other.constituent ≠ (binary rule left right).constituent) ∧
          left.NoRounds ∧ right.NoRounds := by
  simp only [NoRounds, subtrees, List.mem_cons, List.mem_append, or_imp, forall_and]
  simp [properSubtrees, subtrees, or_imp, forall_and]

theorem self_mem_spine (tree : Tree α) : tree ∈ tree.spine := by
  cases tree <;> exact List.mem_cons_self

/-- The nodes of the spine have the whole span. -/
theorem span_of_mem_spine (h : node ∈ tree.spine) :
    node ∈ tree.subtrees ∧ node.first = tree.first ∧ node.last = tree.last := by
  induction tree with
  | lexical rule token position =>
    obtain rfl := List.mem_singleton.mp h
    exact ⟨List.mem_cons_self, rfl, rfl⟩
  | unary rule child ih =>
    rcases List.mem_cons.mp h with rfl | h
    · exact ⟨List.mem_cons_self, rfl, rfl⟩
    · obtain ⟨hmem, hspan⟩ := ih h
      exact ⟨List.mem_cons_of_mem _ hmem, hspan⟩
  | binary rule left right =>
    obtain rfl := List.mem_singleton.mp h
    exact ⟨List.mem_cons_self, rfl, rfl⟩

/-- Where a tree goes round no cycle, the spine below a unary node does without its label. -/
theorem NoRounds.label_ne (h : (unary rule child).NoRounds) (hn : node ∈ child.spine) :
    node.label ≠ rule.head := by
  intro hlabel
  obtain ⟨hmem, hfirst, hlast⟩ := span_of_mem_spine hn
  refine (noRounds_unary_iff.mp h).1 node hmem ?_
  simp only [constituent, hlabel, hfirst, hlast]
  rfl

variable {rules : Ruleset α} {tokens : List String}

namespace Licensed

/-- A node lies within the span of the tree. -/
theorem within (h : tree.Licensed rules tokens) (hn : node ∈ tree.subtrees) :
    tree.first ≤ node.first ∧ node.last ≤ tree.last := by
  induction tree with
  | lexical rule token position =>
    obtain rfl := List.mem_singleton.mp hn
    exact ⟨Nat.le_refl _, Nat.le_refl _⟩
  | unary rule child ih =>
    rcases List.mem_cons.mp hn with rfl | hn
    · exact ⟨Nat.le_refl _, Nat.le_refl _⟩
    · exact ih (licensed_unary.mp h).2 hn
  | binary rule left right ihl ihr =>
    obtain ⟨⟨-, -, hadj⟩, hl, hr⟩ := licensed_binary.mp h
    have hl' := hl.first_le_last
    have hr' := hr.first_le_last
    rcases List.mem_cons.mp hn with rfl | hn
    · exact ⟨Nat.le_refl _, Nat.le_refl _⟩
    · simp only [first, last]
      rcases List.mem_append.mp hn with hn | hn
      · have := ihl hl hn
        omega
      · have := ihr hr hn
        omega

/-- A node with the whole span is on the spine. -/
theorem mem_spine (h : tree.Licensed rules tokens) (hn : node ∈ tree.subtrees)
    (hfirst : node.first = tree.first) (hlast : node.last = tree.last) : node ∈ tree.spine := by
  induction tree with
  | lexical rule token position => exact hn
  | unary rule child ih =>
    rcases List.mem_cons.mp hn with rfl | hn
    · exact List.mem_cons_self
    · exact List.mem_cons_of_mem _ (ih (licensed_unary.mp h).2 hn hfirst hlast)
  | binary rule left right =>
    obtain ⟨⟨-, -, hadj⟩, hl, hr⟩ := licensed_binary.mp h
    have hl' := hl.first_le_last
    have hr' := hr.first_le_last
    simp only [first, last] at hfirst hlast
    rcases List.mem_cons.mp hn with rfl | hn
    · exact List.mem_cons_self
    · rcases List.mem_append.mp hn with hn | hn
      · have := hl.within hn
        omega
      · have := hr.within hn
        omega

/-- A unary node goes round no cycle if its label is none of the spine below it. -/
theorem noRounds_unary (h : (unary rule child).Licensed rules tokens) (hc : child.NoRounds)
    (hspine : ∀ node ∈ child.spine, node.label ≠ rule.head) : (unary rule child).NoRounds := by
  refine noRounds_unary_iff.mpr ⟨fun other ho heq => ?_, hc⟩
  simp only [constituent, Constituent.mk.injEq] at heq
  obtain ⟨hlabel, hfirst, hlast⟩ := heq
  exact hspine other ((licensed_unary.mp h).2.mem_spine ho hfirst hlast) hlabel

/-- A binary node has a longer span than the nodes below it. -/
theorem noRounds_binary (h : (binary rule left right).Licensed rules tokens)
    (hleft : left.NoRounds) (hright : right.NoRounds) : (binary rule left right).NoRounds := by
  obtain ⟨⟨-, -, hadj⟩, hl, hr⟩ := licensed_binary.mp h
  have hl' := hl.first_le_last
  have hr' := hr.first_le_last
  refine noRounds_binary_iff.mpr ⟨fun other ho heq => ?_, hleft, hright⟩
  simp only [constituent, first, last, Constituent.mk.injEq] at heq
  rcases List.mem_append.mp ho with ho | ho
  · have := hl.within ho
    omega
  · have := hr.within ho
    omega

end Licensed

end Constituency.Tree
