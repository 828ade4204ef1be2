import Mathlib.Logic.Relation
import Constituency.NormalForm.UnaryElimination
import Constituency.Proofs.Language.Yields
import Constituency.Proofs.NormalForm.Names

/-!
# Chains of unary rules

Eliminating unary rules keeps exactly the bodies to which a chain of unary rules leads, whatever
its length (`has_eliminateUnary_iff`). A chain that comes back to a label can be cut there, so that
it is enough to follow chains that visit no label twice. The rules that are left have the same
language.
-/
namespace Constituency

open Relation

/-- A walk has left its first point for the last time, or ends there. -/
theorem eq_or_last_visit {β : Type} {r : β → β → Prop} {a b : β} (h : ReflTransGen r a b) :
    a = b ∨ ∃ c, r a c ∧ c ≠ a ∧ ReflTransGen (fun x y => r x y ∧ y ≠ a) c b := by
  induction h with
  | refl => exact .inl rfl
  | @tail b d _ hstep ih =>
    by_cases hd : d = a
    · exact .inl hd.symm
    · rcases ih with rfl | ⟨c, hac, hne, hcb⟩
      · exact .inr ⟨d, hstep, hd, .refl⟩
      · exact .inr ⟨c, hac, hne, hcb.tail ⟨hstep, hd⟩⟩

namespace Ruleset

variable {α : Type} {rules : Ruleset α} {head : String} {body : List Symbol}

/-- Whether a chain of unary rules leads from a label to a body that no unary rule has. -/
def Ends (rules : Ruleset α) (label : String) (body : List Symbol) : Prop :=
  ∃ last, ReflTransGen rules.Steps label last ∧ rules.Has last body ∧
    ∀ child, body ≠ [.nonterminal child]

theorem Ends.step {label child : String} (h : rules.Ends child body)
    (hs : rules.Steps label child) : rules.Ends label body :=
  let ⟨last, hreach, hlast⟩ := h
  ⟨last, hreach.head hs, hlast⟩

theorem Ends.exists_has {label : String} (h : rules.Ends label body) :
    ∃ other, rules.Has label other := by
  obtain ⟨last, hreach, hlast, -⟩ := h
  rcases hreach.cases_head with rfl | ⟨child, hstep, -⟩
  · exact ⟨body, hlast⟩
  · exact ⟨_, hstep⟩

/-- The rules that rewrite no label to itself. -/
def nonLoops (rules : Ruleset α) : Ruleset α :=
  rules.filter fun rule => !isLoop rule

/-- The rules that a chain can go on with at a label. -/
def goingOn (rules : Ruleset α) (label : String) : Ruleset α :=
  rules.nonLoops.filter (·.head = label)

theorem mem_goingOn {rule : Rule α} {label : String} :
    rule ∈ rules.goingOn label ↔
      rule ∈ rules ∧ rule.body ≠ [.nonterminal rule.head] ∧ rule.head = label := by
  have hloop : isLoop rule = false ↔ rule.body ≠ [.nonterminal rule.head] := by
    rw [isLoop, decide_eq_false_iff_not, Rule.unaryChild?_eq_some_iff]
  simp only [goingOn, nonLoops, List.mem_filter, Bool.not_eq_true', hloop, decide_eq_true_eq,
    and_assoc]

theorem mem_keys_byHead {label : String} :
    label ∈ rules.byHead.keys ↔ ∃ rule ∈ rules, rule.head = label := by
  rw [Std.TreeMap.mem_keys]
  induction rules with
  | nil => simp [byHead, groupBy]
  | cons rule rules ih =>
    have hcons : byHead (rule :: rules) =
        addToGroup (fun rule => some rule.head) rule (byHead rules) := rfl
    rw [hcons, addToGroup, Std.TreeMap.mem_insert, ih]
    simp

/-- The labels that chains can visit. -/
def chainLabels (rules : Ruleset α) : List String :=
  rules.nonLoops.byHead.keys

/-- A walk to a body ends at its first label, or goes on with a rule there and never comes back. -/
theorem exists_goingOn {r : String → String → Prop} {label last : String}
    (hr : ∀ a b, r a b → rules.Steps a b) (hreach : ReflTransGen r label last)
    (hlast : rules.Has last body) (hbody : ∀ child, body ≠ [.nonterminal child]) :
    ∃ rule ∈ rules.goingOn label, (rule.unaryChild? = none ∧ rule.body = body) ∨
      ∃ child, rule.unaryChild? = some child ∧ r label child ∧ child ≠ label ∧
        ReflTransGen (fun a b => r a b ∧ b ≠ label) child last := by
  rcases eq_or_last_visit hreach with rfl | ⟨child, hstep, hne, hrest⟩
  · obtain ⟨rule, hmem, rfl, rfl⟩ := hlast
    exact ⟨rule, mem_goingOn.mpr ⟨hmem, hbody _, rfl⟩, .inl
      ⟨Rule.unaryChild?_eq_none_iff.mpr hbody, rfl⟩⟩
  · obtain ⟨rule, hmem, rfl, hchild⟩ := hr _ _ hstep
    have hloop : rule.body ≠ [.nonterminal rule.head] := by
      rw [hchild]
      simpa using hne
    exact ⟨rule, mem_goingOn.mpr ⟨hmem, hloop, rfl⟩, .inr
      ⟨child, Rule.unaryChild?_eq_some_iff.mpr hchild, hstep, hne, hrest⟩⟩

/-- Chains can visit every label that has a body in the end. -/
theorem Ends.mem_chainLabels (h : rules.Ends head body) : head ∈ rules.chainLabels := by
  obtain ⟨last, hreach, hlast, hbody⟩ := h
  obtain ⟨rule, hr, -⟩ := exists_goingOn (fun _ _ h => h) hreach hlast hbody
  obtain ⟨hmem, hlabel⟩ := List.mem_filter.mp hr
  exact mem_keys_byHead.mpr ⟨rule, hmem, of_decide_eq_true hlabel⟩

/-- The labels on a walk to a body can all be visited. -/
theorem reachable_chainLabels {label last : String} (hreach : ReflTransGen rules.Steps label last)
    (hlast : rules.Has last body) (hbody : ∀ child, body ≠ [.nonterminal child]) :
    ReflTransGen (fun a b => rules.Steps a b ∧ b ∈ rules.chainLabels) label last := by
  induction hreach using ReflTransGen.head_induction_on with
  | refl => exact .refl
  | head hstep hrest ih =>
    exact ih.head ⟨hstep, Ends.mem_chainLabels ⟨last, hrest, hlast, hbody⟩⟩

theorem mem_leave {label other : String} {available : List String} :
    other ∈ leave label available ↔ other ∈ available ∧ other ≠ label := by
  simp [leave]

/-- A walk over available labels that never comes back to one of them does not need it. -/
theorem walk_leave {available : List String} {label first last : String}
    (h : ReflTransGen (fun a b => (rules.Steps a b ∧ b ∈ available) ∧ b ≠ label) first last) :
    ReflTransGen (fun a b => rules.Steps a b ∧ b ∈ leave label available) first last :=
  ReflTransGen.mono (fun _ _ hab => ⟨hab.1.1, mem_leave.mpr ⟨hab.1.2, hab.2⟩⟩) _ _ h

variable [Weight α]

theorem eliminateUnary_eq (rules : Ruleset α) :
    rules.eliminateUnary =
      merge (rules.nonLoops.flatMap (withoutUnary rules.goingOn rules.chainLabels)) := by
  have hgroups : (rules.nonLoops.byHead.getD · []) = rules.goingOn := by
    funext label
    simp [byHead, getD_groupBy, goingOn]
  rw [eliminateUnary, ← hgroups]
  rfl

/-- A chain through a label ends with a rule there, or goes on behind it. -/
theorem mem_expansions_iff {rulesOf : String → Ruleset α} {available : List String}
    {label : String} {weight : α} {e : List Symbol × α} :
    e ∈ expansions rulesOf available label weight ↔
      label ∈ available ∧ ∃ rule ∈ rulesOf label,
        (rule.unaryChild? = none ∧ e = (rule.body, weight * rule.weight)) ∨
        ∃ child, rule.unaryChild? = some child ∧
          e ∈ expansions rulesOf (leave label available) child (weight * rule.weight) := by
  rw [expansions]
  by_cases hlabel : label ∈ available
  · simp only [hlabel, dif_pos, List.mem_flatMap, true_and]
    refine exists_congr fun rule => and_congr_right fun _ => ?_
    cases rule.unaryChild? <;> simp
  · simp [hlabel]

/-- Every chain that is followed leads to a body. -/
theorem ends_of_mem_expansions {available : List String} {label : String} {weight : α}
    {e : List Symbol × α} (he : e ∈ expansions rules.goingOn available label weight) :
    rules.Ends label e.1 := by
  induction available, label, weight using expansions.induct with
  | case1 available label weight hmem ih =>
    obtain ⟨-, rule, hr, hrule⟩ := mem_expansions_iff.mp he
    obtain ⟨hin, -, rfl⟩ := mem_goingOn.mp hr
    rcases hrule with ⟨hnone, rfl⟩ | ⟨child, hchild, he⟩
    · exact ⟨rule.head, .refl, ⟨rule, hin, rfl, rfl⟩, Rule.unaryChild?_eq_none_iff.mp hnone⟩
    · exact (ih rule child he).step (steps_of_mem hin hchild)
  | case2 available label weight hmem => exact absurd (mem_expansions_iff.mp he).1 hmem

/-- Every walk over available labels is followed, cut short at labels visited twice. -/
theorem exists_mem_expansions {available : List String} {label last : String} {weight : α}
    (hlabel : label ∈ available)
    (hreach : ReflTransGen (fun a b => rules.Steps a b ∧ b ∈ available) label last)
    (hlast : rules.Has last body) (hbody : ∀ child, body ≠ [.nonterminal child]) :
    ∃ weight', (body, weight') ∈ expansions rules.goingOn available label weight := by
  induction available, label, weight using expansions.induct with
  | case1 available label weight hmem ih =>
    obtain ⟨rule, hr, ⟨hnone, rfl⟩ | ⟨child, hchild, hstep, hne, hrest⟩⟩ :=
      exists_goingOn (fun _ _ h => h.1) hreach hlast hbody
    · exact ⟨weight * rule.weight,
        mem_expansions_iff.mpr ⟨hmem, rule, hr, .inl ⟨hnone, rfl⟩⟩⟩
    · obtain ⟨weight', he⟩ :=
        ih rule child (mem_leave.mpr ⟨hstep.2, hne⟩) (walk_leave hrest)
      exact ⟨weight', mem_expansions_iff.mpr ⟨hmem, rule, hr, .inr ⟨child, hchild, he⟩⟩⟩
  | case2 available label weight hmem => exact absurd hlabel hmem

theorem ends_of_has_withoutUnary {rule : Rule α} (hr : rule ∈ rules)
    (h : (withoutUnary rules.goingOn rules.chainLabels rule).Has head body) :
    rules.Ends head body := by
  obtain ⟨made, hm, rfl, rfl⟩ := h
  rw [withoutUnary] at hm
  cases hc : rule.unaryChild? with
  | some child =>
    rw [hc] at hm
    obtain ⟨e, he, rfl⟩ := List.mem_map.mp hm
    have hstep : rules.Steps rule.head child := steps_of_mem hr hc
    exact (ends_of_mem_expansions he).step hstep
  | none =>
    rw [hc] at hm
    obtain rfl := List.mem_singleton.mp hm
    exact ⟨made.head, .refl, ⟨made, hr, rfl, rfl⟩, Rule.unaryChild?_eq_none_iff.mp hc⟩

theorem exists_has_withoutUnary (h : rules.Ends head body) :
    ∃ rule ∈ rules.nonLoops, (withoutUnary rules.goingOn rules.chainLabels rule).Has head body := by
  obtain ⟨last, hreach, hlast, hbody⟩ := h
  obtain ⟨rule, hr, hrule⟩ :=
    exists_goingOn (fun _ _ h => h.1) (reachable_chainLabels hreach hlast hbody) hlast hbody
  obtain ⟨-, -, rfl⟩ := mem_goingOn.mp hr
  refine ⟨rule, (List.mem_filter.mp hr).1, ?_⟩
  rcases hrule with ⟨hnone, rfl⟩ | ⟨child, hchild, hstep, hne, hrest⟩
  · rw [withoutUnary, hnone]
    exact ⟨rule, List.mem_singleton.mpr rfl, rfl, rfl⟩
  · obtain ⟨weight, he⟩ : ∃ weight, (body, weight) ∈
        expansions rules.goingOn (leave rule.head rules.chainLabels) child rule.weight :=
      exists_mem_expansions (mem_leave.mpr ⟨hstep.2, hne⟩) (walk_leave hrest) hlast hbody
    rw [withoutUnary, hchild]
    exact ⟨rule.derive rule.head body weight, List.mem_map.mpr ⟨_, he, rfl⟩, rfl, rfl⟩

/-- The bodies that are left for a label are those to which chains of unary rules lead. -/
theorem has_eliminateUnary_iff : rules.eliminateUnary.Has head body ↔ rules.Ends head body := by
  rw [eliminateUnary_eq, has_merge, has_flatMap]
  constructor
  · rintro ⟨rule, hr, h⟩
    exact ends_of_has_withoutUnary (List.mem_filter.mp hr).1 h
  · exact exists_has_withoutUnary

/-- Eliminating unary rules adds no symbols. -/
theorem mem_symbols_of_eliminateUnary {symbol : Symbol}
    (h : symbol ∈ rules.eliminateUnary.symbols) : symbol ∈ rules.symbols := by
  obtain ⟨head, body, hhas, hsymbol⟩ := mem_symbols.mp h
  have hends := has_eliminateUnary_iff.mp hhas
  rcases hsymbol with rfl | hbody
  · obtain ⟨other, hother⟩ := hends.exists_has
    exact hother.head_mem_symbols
  · obtain ⟨last, -, hlast, -⟩ := hends
    exact hlast.mem_symbols_of_mem hbody

/-- Whatever the unary rules, cycles among them included, the language stays the same. -/
theorem yields_eliminateUnary_iff {symbols : List Symbol} {tokens : List String} :
    Yields rules.eliminateUnary symbols tokens ↔ Yields rules symbols tokens := by
  constructor
  · refine Yields.of_justified fun head body us hrule hbody => ?_
    obtain ⟨last, hreach, hlast, -⟩ := has_eliminateUnary_iff.mp hrule
    clear hrule
    induction hreach using ReflTransGen.head_induction_on with
    | refl => exact Yields.label_iff.mpr ⟨body, hlast, hbody⟩
    | head hstep _ ih => exact Yields.label_iff.mpr ⟨_, hstep, ih⟩
  · refine Yields.of_justified fun head body us hrule hbody => ?_
    by_cases hunary : ∃ child, body = [.nonterminal child]
    · obtain ⟨child, rfl⟩ := hunary
      obtain ⟨last, hlast, hus⟩ := Yields.label_iff.mp hbody
      have hends : rules.Ends head last := (has_eliminateUnary_iff.mp hlast).step hrule
      exact Yields.label_iff.mpr ⟨last, has_eliminateUnary_iff.mpr hends, hus⟩
    · have hends : rules.Ends head body :=
        ⟨head, .refl, hrule, fun child h => hunary ⟨child, h⟩⟩
      exact Yields.label_iff.mpr ⟨body, has_eliminateUnary_iff.mpr hends, hbody⟩

end Ruleset

end Constituency
