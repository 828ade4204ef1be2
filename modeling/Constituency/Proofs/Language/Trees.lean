import Constituency.Proofs.Language.Yields
import Constituency.Proofs.Tree.Licence

/-!
# Trees and the language

The leaves of a licensed tree are tokens that its label yields. If every rule has one word or two
labels, then conversely whatever a label yields within a list of tokens has a licensed tree.
-/
namespace Constituency

variable {α : Type} {rules : Ruleset α} {tokens : List String}

/-- A label yields the leaves of a licensed tree. -/
theorem Tree.Licensed.yields {tree : Tree α} (h : tree.Licensed rules tokens) :
    Yields rules [.nonterminal tree.label] tree.leaves := by
  induction tree with
  | lexical rule token position =>
    obtain ⟨hmem, -, word, hbody, hmatch⟩ := licensed_lexical.mp h
    exact Yields.label_iff.mpr ⟨_, ⟨rule, hmem, rfl, hbody⟩,
      Yields.word_iff.mpr ⟨token, rfl, hmatch⟩⟩
  | unary rule child ih =>
    obtain ⟨⟨hmem, hbody⟩, hchild⟩ := licensed_unary.mp h
    exact Yields.label_iff.mpr ⟨_, ⟨rule, hmem, rfl, hbody⟩, ih hchild⟩
  | binary rule left right ihl ihr =>
    obtain ⟨⟨hmem, hbody, -⟩, hleft, hright⟩ := licensed_binary.mp h
    refine Yields.label_iff.mpr ⟨_, ⟨rule, hmem, rfl, hbody⟩, ?_⟩
    exact Yields.cons_iff.mpr ⟨left.leaves, right.leaves, rfl, ihl hleft, ihr hright⟩

/-- The tokens for which a symbol has a derivation wherever they stand. -/
def Builds (rules : Ruleset α) (tokens : List String) : Symbol → List String → Prop
  | .terminal word, us => ∃ token, us = [token] ∧ Text.lowerCase word = Text.lowerCase token
  | .nonterminal label, us =>
    us ≠ [] ∧ ∀ first, us <+: tokens.drop first →
      ∃ tree : Tree α, tree.IsDerivation rules tokens label first (first + us.length - 1)

/-- With one word or two labels in every body, there is a tree for whatever a label yields. -/
theorem isModel_builds (hnormal : ∀ head body, rules.Has head body →
      (∃ word, body = [.terminal word]) ∨
        ∃ left right, body = [.nonterminal left, .nonterminal right]) :
    IsModel rules (Builds rules tokens) where
  word _ token hmatch := ⟨token, rfl, hmatch⟩
  rule head body us hrule hspells := by
    rcases hnormal head body hrule with ⟨word, rfl⟩ | ⟨left, right, rfl⟩
    · obtain ⟨token, rfl, hmatch⟩ := spells_singleton.mp hspells
      obtain ⟨rule, hr, rfl, hbody⟩ := hrule
      refine ⟨List.cons_ne_nil _ _, fun first hpre => ?_⟩
      have htoken : tokens[first]? = some token := by
        obtain ⟨rest, hrest⟩ := hpre
        rw [← List.head?_drop, ← hrest]
        rfl
      exact ⟨.lexical rule token first,
        Tree.licensed_lexical.mpr ⟨hr, htoken, word, hbody, hmatch⟩, rfl, rfl, rfl⟩
    · obtain ⟨us, vs, rfl, ⟨hus, hleft⟩, hvs⟩ := hspells
      obtain ⟨hvs, hright⟩ := spells_singleton.mp hvs
      obtain ⟨rule, hr, rfl, hbody⟩ := hrule
      refine ⟨List.append_ne_nil_of_left_ne_nil hus vs, fun first hpre => ?_⟩
      have hpre' : vs <+: tokens.drop (first + us.length) := by
        obtain ⟨rest, hrest⟩ := hpre
        refine ⟨rest, ?_⟩
        rw [← List.drop_drop, ← hrest, List.append_assoc, List.drop_left]
      obtain ⟨l, hl, rfl, hlfirst, hllast⟩ := hleft first ((List.prefix_append us vs).trans hpre)
      obtain ⟨r, hr', rfl, hrfirst, hrlast⟩ := hright (first + us.length) hpre'
      have hpos : 0 < us.length := List.length_pos_iff.mpr hus
      have hadj : l.last + 1 = r.first := by omega
      refine ⟨.binary rule l r, Tree.licensed_binary.mpr ⟨⟨hr, hbody, hadj⟩, hl, hr'⟩, rfl,
        hlfirst, ?_⟩
      simp only [Tree.last, List.length_append]
      omega

/-- With one word or two labels in every body, a label derives all tokens exactly if it yields
them. -/
theorem exists_isDerivation_iff (hnormal : ∀ head body, rules.Has head body →
      (∃ word, body = [.terminal word]) ∨
        ∃ left right, body = [.nonterminal left, .nonterminal right])
    (ht : tokens ≠ []) {label : String} :
    (∃ tree : Tree α, tree.IsDerivation rules tokens label 0 (tokens.length - 1)) ↔
      Yields rules [.nonterminal label] tokens := by
  have hpos : 0 < tokens.length := List.length_pos_iff.mpr ht
  constructor
  · rintro ⟨tree, htree, rfl, hfirst, hlast⟩
    have hleaves : tree.leaves = tokens := by
      rw [htree.leaves_eq, hfirst, hlast, Tree.spanTokens, List.drop_zero,
        show tokens.length - 1 + 1 - 0 = tokens.length by omega, List.take_length]
    exact hleaves ▸ htree.yields
  · intro h
    obtain ⟨-, hbuilds⟩ := spells_singleton.mp ((isModel_builds hnormal).spells h)
    obtain ⟨tree, htree⟩ := hbuilds 0 (List.prefix_refl _)
    exact ⟨tree, by rwa [Nat.zero_add] at htree⟩

end Constituency
