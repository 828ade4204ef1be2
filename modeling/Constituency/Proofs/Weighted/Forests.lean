import Mathlib.Algebra.BigOperators.Finprod
import Mathlib.Algebra.BigOperators.Fin
import Constituency.Proofs.Weighted.Chains

/-!
# Derivations and their weights

A derivation names for every label the place of the rule that rewrites it, so that rules listed
twice make different derivations. Without empty bodies and without cycles among unary rules there
are finitely many derivations of every list of words. The sums of their weights, which are products
of the weights of rules, are then a proper solution of the rules.
-/
namespace Constituency

open Finset Relation

/-- Derivations side by side: words, and labels each with a rule and the derivations below it. -/
inductive Forest {α : Type} (rules : Ruleset α) where
  | nil
  | word (word : String) (rest : Forest rules)
  | node (place : Fin rules.length) (below rest : Forest rules)

namespace Forest

variable {α : Type} {rules : Ruleset α}

/-- Whether a forest derives a list of words from a list of symbols. -/
inductive Derives {rules : Ruleset α} : Forest rules → List Symbol → List String → Prop
  | nil : Derives .nil [] []
  | word {w : String} {rest : Forest rules} {body : List Symbol} {words : List String}
      (hrest : rest.Derives body words) :
      Derives (.word w rest) (.terminal w :: body) (w :: words)
  | node {place : Fin rules.length} {below rest : Forest rules} {body : List Symbol}
      {us vs : List String} (hbelow : below.Derives (rules.get place).body us)
      (hrest : rest.Derives body vs) :
      Derives (.node place below rest) (.nonterminal (rules.get place).head :: body) (us ++ vs)

/-- The words from left to right. -/
def words : Forest rules → List String
  | nil => []
  | word w rest => w :: rest.words
  | node _ below rest => below.words ++ rest.words

/-- The product of the weights of all rules in a forest. -/
def weight {rules : Ruleset ℚ} : Forest rules → ℚ
  | nil => 1
  | word _ rest => rest.weight
  | node place below rest => (rules.get place).weight * below.weight * rest.weight

variable {d : Forest rules} {body : List Symbol} {ws : List String}

theorem Derives.words_eq (h : d.Derives body ws) : d.words = ws := by
  induction h with
  | nil => rfl
  | word _ ih => rw [words, ih]
  | node _ _ ihbelow ihrest => rw [words, ihbelow, ihrest]

/-- Without empty bodies every symbol derives at least one word. -/
theorem Derives.length_le (hempty : ∀ head body, rules.Has head body → body ≠ [])
    (h : d.Derives body ws) : body.length ≤ ws.length := by
  induction h with
  | nil => exact Nat.le_refl _
  | word _ ih => exact Nat.succ_le_succ ih
  | @node place _ _ body us vs _ _ ihbelow ihrest =>
    have hne : (rules.get place).body ≠ [] :=
      hempty _ _ ⟨rules.get place, rules.get_mem place, rfl, rfl⟩
    have hpos : 0 < (rules.get place).body.length := List.length_pos_iff.mpr hne
    rw [List.length_cons, List.length_append]
    omega

end Forest

section Sets

variable {α : Type}

/-- All derivations of a list of words from a list of symbols. -/
def derivations (rules : Ruleset α) (body : List Symbol) (words : List String) :
    Set (Forest rules) :=
  {d | d.Derives body words}

variable {rules : Ruleset α} {body rest : List Symbol} {words : List String} {label : String}

theorem derivations_nil : derivations rules [] words = {d | d = .nil ∧ words = []} := by
  ext d
  constructor
  · rintro ⟨⟩
    exact ⟨rfl, rfl⟩
  · rintro ⟨rfl, rfl⟩
    exact .nil

theorem derivations_word_nil {word : String} :
    derivations rules (.terminal word :: rest) [] = ∅ := by
  ext d
  constructor
  · rintro ⟨⟩
  · exact False.elim

theorem derivations_word_cons {word w : String} :
    derivations rules (.terminal word :: rest) (w :: words) =
      {d | word = w ∧ ∃ d' ∈ derivations rules rest words, .word word d' = d} := by
  ext d
  constructor
  · rintro ⟨⟩
    exact ⟨rfl, _, ‹_›, rfl⟩
  · rintro ⟨rfl, d', hd, rfl⟩
    exact .word hd

/-- A derivation of a label and what follows it cuts the words in two. -/
theorem mem_derivations_label {d : Forest rules} :
    d ∈ derivations rules (.nonterminal label :: rest) words ↔
      ∃ place : Fin rules.length, (rules.get place).head = label ∧
        ∃ k ≤ words.length, ∃ below ∈ derivations rules (rules.get place).body (words.take k),
          ∃ d' ∈ derivations rules rest (words.drop k), .node place below d' = d := by
  constructor
  · rintro (_ | _ | @⟨place, below, d', _, us, vs, hbelow, hrest⟩)
    refine ⟨place, rfl, us.length, by simp, below, ?_, d', ?_, rfl⟩
    · rw [List.take_left]
      exact hbelow
    · rw [List.drop_left]
      exact hrest
  · rintro ⟨place, rfl, k, -, below, hbelow, d', hrest, rfl⟩
    have h := Forest.Derives.node hbelow hrest
    rwa [List.take_append_drop] at h

section Finiteness

/-- If the bodies of a label have finitely many derivations, so has the label. -/
theorem finite_derivations_label
    (hbodies : ∀ place : Fin rules.length, (rules.get place).head = label →
      (derivations rules (rules.get place).body words).Finite) :
    (derivations rules [.nonterminal label] words).Finite := by
  have hfinite : (⋃ place ∈ {place : Fin rules.length | (rules.get place).head = label},
      (Forest.node place · .nil) '' derivations rules (rules.get place).body words).Finite :=
    (Set.toFinite _).biUnion fun place hp => (hbodies place hp).image _
  refine hfinite.subset fun d hd => ?_
  obtain ⟨place, hp, k, hk, below, hbelow, d', hrest, rfl⟩ := mem_derivations_label.mp hd
  rw [derivations_nil] at hrest
  obtain ⟨rfl, hdrop⟩ := hrest
  rw [List.take_of_length_le (List.drop_eq_nil_iff.mp hdrop)] at hbelow
  exact Set.mem_iUnion₂.mpr ⟨place, hp, below, hbelow, rfl⟩

variable (hempty : ∀ head body, rules.Has head body → body ≠ [])
include hempty

/-- Before further symbols a label derives some of the words, but not all. -/
theorem exists_cut_of_mem_derivations (hrest : rest ≠ []) {d : Forest rules}
    (hd : d ∈ derivations rules (.nonterminal label :: rest) words) :
    ∃ place : Fin rules.length, ∃ k, (0 < k ∧ k < words.length) ∧
      d ∈ Set.image2 (Forest.node place) (derivations rules (rules.get place).body (words.take k))
        (derivations rules rest (words.drop k)) := by
  obtain ⟨place, -, k, -, below, hbelow, d', hd', rfl⟩ := mem_derivations_label.mp hd
  refine ⟨place, k, ?_, below, hbelow, d', hd', rfl⟩
  have hbody : (rules.get place).body ≠ [] :=
    hempty _ _ ⟨rules.get place, rules.get_mem place, rfl, rfl⟩
  have hleft := hbelow.length_le hempty
  have hright := hd'.length_le hempty
  rw [List.length_take] at hleft
  rw [List.length_drop] at hright
  have hbodyPos : 0 < (rules.get place).body.length := List.length_pos_iff.mpr hbody
  have hrestPos : 0 < rest.length := List.length_pos_iff.mpr hrest
  omega

/-- If shorter lists have finitely many derivations, so have bodies that cut a list into shorter
ones. -/
theorem finite_derivations_of_shorter
    (hshort : ∀ body ws, ws.length < words.length → (derivations rules body ws).Finite)
    (hbody : ∀ child, body ≠ [.nonterminal child]) : (derivations rules body words).Finite := by
  match body, hbody with
  | [], _ =>
    rw [derivations_nil]
    exact (Set.finite_singleton Forest.nil).subset fun d hd => hd.1
  | .terminal word :: rest, _ =>
    cases words with
    | nil =>
      rw [derivations_word_nil]
      exact Set.finite_empty
    | cons w ws =>
      rw [derivations_word_cons]
      refine ((hshort rest ws (Nat.lt_succ_self _)).image (Forest.word word)).subset ?_
      rintro d ⟨-, d', hd, rfl⟩
      exact ⟨d', hd, rfl⟩
  | [.nonterminal label], hbody => exact absurd rfl (hbody label)
  | .nonterminal label :: symbol :: rest, _ =>
    have hfinite : (⋃ place : Fin rules.length, ⋃ k ∈ {k | 0 < k ∧ k < words.length},
        Set.image2 (Forest.node place) (derivations rules (rules.get place).body (words.take k))
          (derivations rules (symbol :: rest) (words.drop k))).Finite := by
      refine Set.finite_iUnion fun place => ?_
      refine ((Set.finite_lt_nat words.length).subset fun k hk => hk.2).biUnion fun k hk => ?_
      obtain ⟨hpos, hlt⟩ := hk
      exact (hshort _ _ (by rw [List.length_take]; omega)).image2 _
        (hshort _ _ (by rw [List.length_drop]; omega))
    refine hfinite.subset fun d hd => ?_
    obtain ⟨place, k, hk, hcut⟩ :=
      exists_cut_of_mem_derivations hempty (List.cons_ne_nil symbol rest) hd
    exact Set.mem_iUnion.mpr ⟨place, Set.mem_iUnion₂.mpr ⟨k, hk, hcut⟩⟩

/-- Without empty bodies and cycles every list of words has finitely many derivations. -/
theorem finite_derivations (hacyclic : rules.Acyclic) (body : List Symbol) (words : List String) :
    (derivations rules body words).Finite := by
  -- The words get shorter, but not under unary rules; there the labels come down in their order.
  have hall : ∀ n body words, words.length = n → (derivations rules body words).Finite := by
    intro n
    induction n using Nat.strong_induction_on with
    | _ n ih =>
      rintro body words rfl
      have hother : ∀ body, (∀ child, body ≠ [.nonterminal child]) →
          (derivations rules body words).Finite := fun body hbody =>
        finite_derivations_of_shorter hempty (fun body ws hlt => ih _ hlt body ws rfl) hbody
      have hlabel : ∀ label, (derivations rules [.nonterminal label] words).Finite := by
        refine hacyclic.induction fun label ihlabel => finite_derivations_label ?_
        rintro place rfl
        by_cases hunary : ∃ child, (rules.get place).body = [.nonterminal child]
        · obtain ⟨child, hchild⟩ := hunary
          rw [hchild]
          exact ihlabel child ⟨rules.get place, rules.get_mem place, rfl, hchild⟩
        · exact hother _ fun child h => hunary ⟨child, h⟩
      by_cases hunary : ∃ child, body = [.nonterminal child]
      · obtain ⟨child, rfl⟩ := hunary
        exact hlabel child
      · exact hother body fun child h => hunary ⟨child, h⟩
  exact hall words.length body words rfl

end Finiteness

end Sets

end Constituency
