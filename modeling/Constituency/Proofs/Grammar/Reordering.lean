import Mathlib.Data.List.Perm.Basic
import Mathlib.Data.String.Basic
import Constituency.Basics
import Constituency.Grammar.Basic
import Constituency.Proofs.NormalForm.UnaryChains

/-!
# Rules in another order

A list of rules makes a grammar or not, whatever the order of the rules is. A grammar is written in
the order of heads: that list has the same rules, for every head in the same order, and begins with
a rule of the least head.
-/
namespace Constituency

namespace Ruleset

variable {α : Type} {rules others : Ruleset α}

/-- Two lists that agree on every head hold the same rules. -/
theorem perm_of_filter_head
    (h : ∀ head, rules.filter (·.head = head) = others.filter (·.head = head)) :
    rules.Perm others := by
  classical
  refine List.perm_iff_count.mpr fun rule => ?_
  have hcount : ∀ list : Ruleset α,
      (list.filter (·.head = rule.head)).count rule = list.count rule :=
    fun list => List.count_filter (decide_eq_true rfl)
  rw [← hcount, h, hcount]

/-! ### The order of heads -/

/-- The rules in the order of their heads, those of one head in their own order. -/
def inHeadOrder (rules : Ruleset α) : Ruleset α :=
  rules.byHead.values.flatten

/-- The values of a map stand in the order of its keys. -/
theorem values_eq_map_getD {κ β : Type} {cmp : κ → κ → Ordering} [Std.TransCmp cmp]
    [Std.LawfulEqCmp cmp] (map : Std.TreeMap κ β cmp) (fallback : β) :
    map.values = map.keys.map (map.getD · fallback) := by
  rw [← Std.TreeMap.map_fst_toList_eq_keys, List.map_map, Std.TreeMap.values_eq_map_snd]
  refine List.map_congr_left fun entry hentry => ?_
  have hfound := Std.TreeMap.mem_toList_iff_getElem?_eq_some.mp hentry
  simp [Std.TreeMap.getD_eq_getD_getElem?, hfound]

theorem inHeadOrder_eq (rules : Ruleset α) :
    rules.inHeadOrder = rules.byHead.keys.flatMap fun head => rules.filter (·.head = head) := by
  rw [inHeadOrder, values_eq_map_getD rules.byHead [], ← List.flatMap_def]
  simp only [byHead, getD_groupBy, Option.some.injEq]

theorem pairwise_keys_byHead (rules : Ruleset α) : rules.byHead.keys.Pairwise (· < ·) :=
  Std.TreeMap.ordered_keys.imp compare_lt_iff_lt.mp

/-- Every head has the same rules as before, in the same order. -/
theorem filter_inHeadOrder (rules : Ruleset α) (head : String) :
    rules.inHeadOrder.filter (·.head = head) = rules.filter (·.head = head) := by
  have hgroup : ∀ other, (rules.filter (·.head = other)).filter (·.head = head) =
      if other = head then rules.filter (·.head = head) else [] := by
    intro other
    rw [List.filter_filter]
    split
    · rename_i heq
      exact List.filter_congr fun rule _ => by simp [heq]
    · rename_i hne
      refine List.filter_eq_nil_iff.mpr fun rule _ => ?_
      simp only [Bool.and_eq_true, decide_eq_true_eq, not_and]
      exact fun hhead hother => hne (hother ▸ hhead)
  have hkeys : ∀ keys : List String, keys.Pairwise (· < ·) →
      keys.flatMap (fun other => if other = head then rules.filter (·.head = head) else []) =
        if head ∈ keys then rules.filter (·.head = head) else [] := by
    intro keys hordered
    induction keys with
    | nil => rfl
    | cons key keys ih =>
      obtain ⟨hless, hrest⟩ := List.pairwise_cons.mp hordered
      rw [List.flatMap_cons, ih hrest]
      by_cases hkey : key = head
      · have hnot : head ∉ keys := fun hmem => lt_irrefl head (hkey ▸ hless head hmem)
        simp [hkey, hnot]
      · have hne : ¬ head = key := fun heq => hkey heq.symm
        simp [hkey, hne]
  rw [inHeadOrder_eq, List.filter_flatMap]
  simp only [hgroup]
  rw [hkeys _ (pairwise_keys_byHead rules)]
  split
  · rfl
  · rename_i hnot
    refine (List.filter_eq_nil_iff.mpr fun rule hr => ?_).symm
    rw [decide_eq_true_iff]
    exact fun hhead => hnot (mem_keys_byHead.mpr ⟨rule, hr, hhead⟩)

theorem inHeadOrder_perm (rules : Ruleset α) : rules.inHeadOrder.Perm rules :=
  perm_of_filter_head (filter_inHeadOrder rules)

/-- The first rule in the order of heads has the least head. -/
theorem head_le_of_inHeadOrder {first : Rule α} (h : rules.inHeadOrder.head? = some first)
    {rule : Rule α} (hr : rule ∈ rules) : first.head ≤ rule.head := by
  have hkey : ∀ {key : String} {rule : Rule α}, rule ∈ rules.filter (·.head = key) →
      rule.head = key := fun hm => of_decide_eq_true (List.mem_filter.mp hm).2
  have hsorted : rules.inHeadOrder.Pairwise (fun a b => a.head ≤ b.head) := by
    rw [inHeadOrder_eq, List.pairwise_flatMap]
    refine ⟨fun key _ => List.pairwise_of_forall_mem_list fun a ha b hb => ?_,
      (pairwise_keys_byHead rules).imp fun hless a ha b hb => ?_⟩
    · exact le_of_eq ((hkey ha).trans (hkey hb).symm)
    · rw [hkey ha, hkey hb]
      exact le_of_lt hless
  obtain ⟨rest, hcons⟩ := List.head?_eq_some_iff.mp h
  have hmem : rule ∈ rules.inHeadOrder := (inHeadOrder_perm rules).mem_iff.mpr hr
  rw [hcons] at hsorted hmem
  rcases List.mem_cons.mp hmem with rfl | hmem
  · exact le_refl _
  · exact (List.pairwise_cons.mp hsorted).1 rule hmem

/-! ### Validation and grammars -/

variable [Weight α]

theorem fault?_eq_none_iff {range : WeightRange} :
    rules.fault? range = none ↔ ∀ rule ∈ rules, rule.fault? range = none := by
  rw [fault?, List.findSome?_eq_none_iff]

end Ruleset

namespace Grammar

variable {α : Type} [Weight α]

/-- Whether rules make a grammar does not hang on their order. -/
theorem exists_ofRules_of_perm (g : Grammar α) {rules : Ruleset α} (hperm : g.rules.Perm rules) :
    ∃ h, ofRules rules = .ok h := by
  have hvalid : rules.fault? .probabilities = none :=
    Ruleset.fault?_eq_none_iff.mpr fun rule hr =>
      Ruleset.fault?_eq_none_iff.mp g.rules_valid rule (hperm.mem_iff.mpr hr)
  cases rules with
  | nil => exact absurd hperm.eq_nil g.rules_ne_nil
  | cons first rest => exact ⟨_, ofRules_cons hvalid⟩

end Grammar

end Constituency
