import Constituency.Chart.Closure
import Constituency.Proofs.Chart.Offers

/-!
# What a closure leaves in a cell

Applying a rule is an offer, so a step of a closure is a sequence of offers or drops an analysis
that waits. What holds of a cell under offers therefore holds under a whole run: a property that
unary rules keep, and scores that are reached. In the end nothing waits, and with lawful scores no
unary rule makes anything better of what the cell holds.
-/
namespace Constituency

variable {α σ : Type} [Score σ] [Logarithm α σ]

/-- Whatever unary rules make of an analysis that a cell holds, the cell reaches it. -/
def Cell.Settled [Weight α] (R : σ → σ → Prop) (g : Grammar α) (cell : Cell α) : Prop :=
  ∀ label a, cell[label]? = some a → ∀ rule ∈ g.unaryRules label,
    cell.Reaches R rule.head (Logarithm.log rule.weight + a.score)

/-- What a cell holds has nothing better in it. -/
theorem Cell.hasBetter_eq_false [LawfulScore σ] {cell : Cell α} {a : Analysis α}
    (ha : cell[a.label]? = some a) : cell.hasBetter a = false := by
  simp [hasBetter, ha, Score.comparison_le.refl a.score]

namespace Closure

theorem cell_apply (child : Analysis α) (c : Closure α) (rule : Rule α) :
    (c.apply child rule).cell = c.cell.offer (.unary rule child) := by
  simp only [apply, Cell.offer]
  split <;> rfl

/-- What is accepted is held, and is the next to be worked off. -/
theorem apply_of_accepts {c : Closure α} {child : Analysis α} {rule : Rule α}
    (h : c.cell.accepts (.unary rule child) = true) :
    c.apply child rule =
      { cell := c.cell.insert rule.head (.unary rule child)
        pending := .unary rule child :: c.pending
        used := c.used + 1 } := by
  rw [apply, if_pos h]
  rfl

theorem cell_foldl_apply (child : Analysis α) (c : Closure α) (rules : Ruleset α) :
    (rules.foldl (apply child) c).cell =
      (rules.map (Analysis.unary · child)).foldl Cell.offer c.cell := by
  induction rules generalizing c with
  | nil => rfl
  | cons rule rules ih => rw [List.foldl_cons, ih, cell_apply, List.map_cons, List.foldl_cons]

theorem pending_apply (child : Analysis α) (c : Closure α) (rule : Rule α) :
    (c.apply child rule).pending =
      if c.cell.accepts (.unary rule child) then .unary rule child :: c.pending else c.pending := by
  simp only [apply]
  split <;> rfl

/-- Whatever waits goes on waiting while rules are applied. -/
theorem mem_pending_foldl_apply {child a : Analysis α} {c : Closure α} (h : a ∈ c.pending)
    (rules : Ruleset α) : a ∈ (rules.foldl (apply child) c).pending := by
  induction rules generalizing c with
  | nil => exact h
  | cons rule rules ih =>
    apply ih
    rw [pending_apply]
    split
    · exact List.mem_cons_of_mem _ h
    · exact h

/-- Whatever the rules make waits or has waited before. -/
theorem of_mem_pending_foldl_apply {child a : Analysis α} {c : Closure α} {rules : Ruleset α}
    (h : a ∈ (rules.foldl (apply child) c).pending) :
    a ∈ c.pending ∨ ∃ rule ∈ rules, a = .unary rule child := by
  induction rules generalizing c with
  | nil => exact .inl h
  | cons rule rules ih =>
    rcases ih h with hp | ⟨other, ho, rfl⟩
    · rw [pending_apply] at hp
      split at hp
      · rcases List.mem_cons.mp hp with rfl | hp
        · exact .inr ⟨rule, List.mem_cons_self, rfl⟩
        · exact .inl hp
      · exact .inl hp
    · exact .inr ⟨other, List.mem_cons_of_mem rule ho, rfl⟩

/-- What the cell holds afterwards waits, unless the cell has held it before. -/
theorem getElem?_foldl_apply {child a : Analysis α} {c : Closure α} {rules : Ruleset α}
    {label : String} (h : (rules.foldl (apply child) c).cell[label]? = some a) :
    c.cell[label]? = some a ∨ a ∈ (rules.foldl (apply child) c).pending ∧ a.label = label := by
  induction rules generalizing c with
  | nil => exact .inl h
  | cons rule rules ih =>
    rcases ih h with hc | hp
    · rw [cell_apply, Cell.getElem?_offer] at hc
      split at hc
      · rename_i ha
        cases hc
        refine .inr ⟨mem_pending_foldl_apply ?_ rules, ha.2⟩
        rw [pending_apply, if_pos ha.1]
        exact List.mem_cons_self
      · exact .inl hc
    · exact .inr hp

variable [Weight α] {g : Grammar α}

/-- A step drops the analysis that it works off, or applies all unary rules to it. -/
theorem step_cons {c : Closure α} {child : Analysis α} {rest : List (Analysis α)}
    (hp : c.pending = child :: rest) :
    c.step g = { c with pending := rest } ∧ c.cell.hasBetter child = true ∨
      c.step g = (g.unaryRules child.label).foldl (apply child) { c with pending := rest } ∧
        c.cell.hasBetter child = false := by
  simp only [step, hp]
  split
  · rename_i h
    exact .inl ⟨rfl, h⟩
  · rename_i h
    exact .inr ⟨rfl, by simpa using h⟩

/-- Where one rule applies to an analysis that is not replaced yet, one rule is a step. -/
theorem step_of_rule {c : Closure α} {child : Analysis α} {rest : List (Analysis α)} {rule : Rule α}
    (hp : c.pending = child :: rest) (hbetter : c.cell.hasBetter child = false)
    (hrules : g.unaryRules child.label = [rule]) :
    c.step g = apply child { c with pending := rest } rule := by
  simp only [step, hp, hbetter, hrules, Bool.false_eq_true, if_false, List.foldl_cons,
    List.foldl_nil]

theorem run_of_idle {c : Closure α} (hp : c.pending = []) (limit : Option Nat) :
    c.run g limit = some (.ok c) := by
  rw [run]
  simp [hp]

/-- Without a limit a closure goes on as long as anything waits. -/
theorem run_none_eq_step {c : Closure α} (hp : c.pending ≠ []) :
    c.run g none = (c.step g).run g none := by
  rw [run]
  simp [hp]

/-- What every step keeps holds in the end, and nothing waits then. -/
theorem run_induction {P : Closure α → Prop} (hstep : ∀ c, c.pending ≠ [] → P c → P (c.step g))
    {limit : Option Nat} {c d : Closure α} (h : c.run g limit = some (.ok d)) (hc : P c) :
    P d ∧ d.pending = [] := by
  have key : ∀ (c : Closure α) (r : Except Exhausted (Closure α)), c.run g limit = some r →
      P c → ∀ d, r = .ok d → P d ∧ d.pending = [] := by
    apply run.partial_correctness
    intro run ih c r hr hc d hd
    subst hd
    by_cases hp : c.pending = []
    · simp [hp] at hr
      subst hr
      exact ⟨hc, hp⟩
    · by_cases hl : exceeds limit (c.step g).used = true
      · simp [hp, hl] at hr
      · simp only [List.isEmpty_iff, hp, hl, if_false, Bool.false_eq_true] at hr
        exact ih _ _ hr (hstep c hp hc) d rfl
  exact key c _ h hc d rfl

/-! ### A property that unary rules keep -/

/-- All analyses of a closure, held or waiting, have a property. -/
structure Every (P : Analysis α → Prop) (c : Closure α) : Prop where
  held : c.cell.Every P
  waiting : ∀ a ∈ c.pending, P a

omit [Weight α] in
theorem every_start {P : Analysis α → Prop} {cell : Cell α} (h : cell.Every P) (used : Nat) :
    (start cell used).Every P where
  held := h
  waiting _ ha := h.of_mem_values (List.mem_reverse.mp ha)

theorem Every.step {P : Analysis α → Prop}
    (hP : ∀ a, P a → ∀ rule ∈ g.unaryRules a.label, P (.unary rule a))
    {c : Closure α} (h : c.Every P) (hp : c.pending ≠ []) : (c.step g).Every P := by
  obtain ⟨child, rest, hc⟩ := List.exists_cons_of_ne_nil hp
  have hchild : P child := h.waiting child (hc ▸ List.mem_cons_self)
  have hrest : ∀ a ∈ rest, P a := fun a ha => h.waiting a (hc ▸ List.mem_cons_of_mem child ha)
  rcases step_cons (g := g) hc with ⟨hs, -⟩ | ⟨hs, -⟩
  · rw [hs]
    exact ⟨h.held, hrest⟩
  · rw [hs]
    constructor
    · rw [cell_foldl_apply]
      refine h.held.foldl_offer fun a ha => ?_
      obtain ⟨rule, hr, rfl⟩ := List.mem_map.mp ha
      exact hP child hchild rule hr
    · intro a ha
      rcases of_mem_pending_foldl_apply ha with ha | ⟨rule, hr, rfl⟩
      · exact hrest a ha
      · exact hP child hchild rule hr

/-- A property that unary rules keep passes from a cell to its closure. -/
theorem every_run {P : Analysis α → Prop}
    (hP : ∀ a, P a → ∀ rule ∈ g.unaryRules a.label, P (.unary rule a))
    {limit : Option Nat} {cell : Cell α} {used : Nat} {d : Closure α}
    (h : (start cell used).run g limit = some (.ok d)) (hcell : cell.Every P) :
    d.cell.Every P :=
  (run_induction (P := Every P) (fun _ hp hc => hc.step hP hp) h (every_start hcell used)).1.held

/-! ### Scores that are reached -/

section Reached

variable {R : σ → σ → Prop} (hR : Score.Comparison R)
include hR

theorem reaches_step {c : Closure α} {label : String} {s : σ} (h : c.cell.Reaches R label s)
    (hp : c.pending ≠ []) : (c.step g).cell.Reaches R label s := by
  obtain ⟨child, rest, hc⟩ := List.exists_cons_of_ne_nil hp
  rcases step_cons (g := g) hc with ⟨hs, -⟩ | ⟨hs, -⟩
  · rw [hs]
    exact h
  · rw [hs, cell_foldl_apply]
    exact Cell.Reaches.foldl_offer hR h _

/-- What a cell reaches its closure reaches. -/
theorem reaches_run {limit : Option Nat} {cell : Cell α} {used : Nat} {d : Closure α}
    (h : (start cell used).run g limit = some (.ok d)) {label : String} {s : σ}
    (hs : cell.Reaches R label s) : d.cell.Reaches R label s :=
  (run_induction (P := fun c => c.cell.Reaches R label s)
    (fun _ hp hc => reaches_step hR hc hp) h hs).1

end Reached

/-! ### Nothing is left to be done -/

/-- Each analysis that the cell holds waits with its score, or all unary rules have been applied to
its score already. -/
def Settling (g : Grammar α) (c : Closure α) : Prop :=
  ∀ label held, c.cell[label]? = some held →
    (∃ a ∈ c.pending, a.label = label ∧ held.score ≤ a.score) ∨
      ∀ rule ∈ g.unaryRules label,
        c.cell.Reaches (· ≤ ·) rule.head (Logarithm.log rule.weight + held.score)

variable [LawfulScore σ]

theorem settling_start {cell : Cell α} {P : Analysis α → Prop} (h : cell.Every P) (used : Nat) :
    (start cell used).Settling g := by
  intro label held hl
  have hmem : held ∈ cell.values.reverse := List.mem_reverse.mpr (Cell.mem_values.mpr ⟨label, hl⟩)
  exact .inl ⟨held, hmem, (h label held hl).1, Score.comparison_le.refl _⟩

omit [LawfulScore σ] in
/-- What a held analysis needs comes from the first one that waits, from the others, or is there. -/
theorem Settling.of_cons {c : Closure α} (h : c.Settling g) {child : Analysis α}
    {rest : List (Analysis α)} (hc : c.pending = child :: rest) {label : String} {held : Analysis α}
    (hl : c.cell[label]? = some held) :
    (child.label = label ∧ held.score ≤ child.score) ∨
      (∃ a ∈ rest, a.label = label ∧ held.score ≤ a.score) ∨
        ∀ rule ∈ g.unaryRules label,
          c.cell.Reaches (· ≤ ·) rule.head (Logarithm.log rule.weight + held.score) := by
  rcases h label held hl with ⟨a, ha, hscore⟩ | hdone
  · rw [hc] at ha
    rcases List.mem_cons.mp ha with rfl | ha
    · exact .inl hscore
    · exact .inr (.inl ⟨a, ha, hscore⟩)
  · exact .inr (.inr hdone)

theorem Settling.step {c : Closure α} (h : c.Settling g) (hp : c.pending ≠ []) :
    (c.step g).Settling g := by
  obtain ⟨child, rest, hc⟩ := List.exists_cons_of_ne_nil hp
  rcases step_cons (g := g) hc with ⟨hs, hbetter⟩ | ⟨hs, -⟩
  · -- The dropped analysis is worse than the held one, so it is none that the invariant needs.
    rw [hs]
    intro label held hl
    rcases h.of_cons hc hl with ⟨hlabel, hle⟩ | hrest | hdone
    · have hnot : ¬ held.score ≤ child.score := by
        simpa [Cell.hasBetter, hlabel, hl] using hbetter
      exact absurd hle hnot
    · exact .inl hrest
    · exact .inr hdone
  · have hmade : ∀ rule ∈ g.unaryRules child.label, (c.step g).cell.Reaches (· ≤ ·) rule.head
        (Logarithm.log rule.weight + child.score) := by
      intro rule hr
      rw [hs, cell_foldl_apply]
      exact Cell.reaches_foldl_offer Score.comparison_le _ (List.mem_map_of_mem hr)
    intro label held hl
    rw [hs] at hl
    rcases getElem?_foldl_apply hl with hl | ⟨hw, hlabel⟩
    · rcases h.of_cons hc hl with ⟨hlabel, hle⟩ | ⟨a, ha, hscore⟩ | hdone
      · right
        intro rule hr
        refine (hmade rule (hlabel ▸ hr)).mono Score.comparison_le ?_
        exact LawfulScore.add_le_add_left _ hle
      · left
        rw [hs]
        exact ⟨a, mem_pending_foldl_apply ha _, hscore⟩
      · right
        intro rule hr
        exact reaches_step Score.comparison_le (hdone rule hr) hp
    · left
      rw [hs]
      exact ⟨held, hw, hlabel, Score.comparison_le.refl _⟩

/-- In the end the cell reaches whatever the unary rules make of what it holds. -/
theorem settled_run {P : Analysis α → Prop} {limit : Option Nat} {cell : Cell α} {used : Nat}
    {d : Closure α} (h : (start cell used).run g limit = some (.ok d)) (hcell : cell.Every P) :
    d.cell.Settled (· ≤ ·) g := by
  obtain ⟨hsettling, hnone⟩ := run_induction (P := Settling g) (fun _ hp hc => hc.step hp) h
    (settling_start hcell used)
  intro label a ha rule hr
  rcases hsettling label a ha with ⟨b, hb, -⟩ | hdone
  · rw [hnone] at hb
    cases hb
  · exact hdone rule hr

/-! ### One climb -/

/-- The closure of one analysis to which one rule applies adds what the rule makes, if no rule
applies to that, and takes one step. -/
theorem run_climb {cell : Cell α} {a : Analysis α} {rule : Rule α} (hvalues : cell.values = [a])
    (hheld : cell[a.label]? = some a) (hnew : cell[rule.head]? = none)
    (hrules : g.unaryRules a.label = [rule]) (htop : g.unaryRules rule.head = []) (used : Nat) :
    (start cell used).run g none = some (.ok
      { cell := cell.insert rule.head (.unary rule a), pending := [], used := used + 1 }) := by
  have hpending : (start cell used).pending = [a] := by rw [start, hvalues, List.reverse_singleton]
  have haccepts : cell.accepts (.unary rule a) = true := by
    have hlabel : cell[(Analysis.unary rule a).label]? = none := hnew
    rw [Cell.accepts, hlabel]
  have hfirst : (start cell used).step g =
      { cell := cell.insert rule.head (.unary rule a)
        pending := [.unary rule a]
        used := used + 1 } :=
    (step_of_rule hpending (Cell.hasBetter_eq_false hheld) hrules).trans (apply_of_accepts haccepts)
  have hsecond : ((start cell used).step g).step g =
      { cell := cell.insert rule.head (.unary rule a), pending := [], used := used + 1 } := by
    have hlabel : g.unaryRules (Analysis.unary rule a).label = [] := htop
    rw [hfirst, step]
    simp only [hlabel, List.foldl_nil, ite_self]
  rw [run_none_eq_step (by simp [hpending]), run_none_eq_step (by simp [hfirst]), hsecond,
    run_of_idle rfl]

end Closure

end Constituency
