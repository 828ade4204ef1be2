import Mathlib.Data.List.Basic
import Constituency.Basics
import Constituency.Chart.Cell
import Constituency.Proofs.Scores

/-!
# What offers and pruning leave in a cell

`Every P` says that each analysis of a cell has the label that it is found by and the property `P`.
`Reaches R label s` says that the cell holds something for a label that compares with the score `s`.
Offers keep the first if what is offered has the property, and keep the second in any case; pruning
keeps the first and bounds the number of labels.
-/
namespace Constituency.Cell

variable {α σ : Type} [Score σ] [Logarithm α σ]

theorem mem_values {cell : Cell α} {a : Analysis α} :
    a ∈ cell.values ↔ ∃ label : String, cell[label]? = some a := by
  simp only [Std.TreeMap.values_eq_map_snd, List.mem_map, Prod.exists, exists_eq_right,
    Std.TreeMap.mem_toList_iff_getElem?_eq_some]

theorem getElem?_offer (cell : Cell α) (a : Analysis α) (label : String) :
    (cell.offer a)[label]? =
      if cell.accepts a = true ∧ a.label = label then some a else cell[label]? := by
  by_cases h : cell.accepts a = true <;>
    simp [offer, h, Std.TreeMap.getElem?_insert, Std.LawfulEqCmp.compare_eq_iff_eq]

theorem not_le_of_accepts {cell : Cell α} {a held : Analysis α} (h : cell.accepts a = true)
    (hl : cell[a.label]? = some held) : ¬ a.score ≤ held.score := by
  simpa [accepts, hl] using h

/-! ### A property of all analyses -/

/-- Every analysis has the label that it is found by, and a property. -/
def Every (P : Analysis α → Prop) (cell : Cell α) : Prop :=
  ∀ label a, cell[label]? = some a → a.label = label ∧ P a

variable {P : Analysis α → Prop} {cell : Cell α}

theorem every_empty (P : Analysis α → Prop) : Every P (∅ : Cell α) := by
  intro label a h
  simp at h

theorem Every.imp {P' : Analysis α → Prop} (h : Every P cell) (hP : ∀ a, P a → P' a) :
    Every P' cell :=
  fun label a ha => ⟨(h label a ha).1, hP a (h label a ha).2⟩

theorem Every.of_mem_values (h : Every P cell) {a : Analysis α} (ha : a ∈ cell.values) : P a := by
  obtain ⟨label, hl⟩ := mem_values.mp ha
  exact (h label a hl).2

theorem Every.offer (h : Every P cell) {a : Analysis α} (ha : P a) : Every P (cell.offer a) := by
  intro label b hb
  rw [getElem?_offer] at hb
  split at hb
  · rename_i hc
    cases hb
    exact ⟨hc.2, ha⟩
  · exact h label b hb

theorem Every.foldl_offer (h : Every P cell) {as : List (Analysis α)} (has : ∀ a ∈ as, P a) :
    Every P (as.foldl Cell.offer cell) := by
  induction as generalizing cell with
  | nil => exact h
  | cons a as ih =>
    exact ih (h.offer (has a List.mem_cons_self)) fun b hb => has b (List.mem_cons_of_mem a hb)

theorem mem_ranking {entry : String × Analysis α} :
    entry ∈ cell.ranking ↔ cell[entry.1]? = some entry.2 := by
  rw [ranking, (List.mergeSort_perm _ _).mem_iff, ← Std.TreeMap.mem_toList_iff_getElem?_eq_some]

@[simp] theorem prune_zero (cell : Cell α) : cell.prune 0 = cell := by
  simp [prune]

/-- No label is ranked twice. -/
theorem pairwise_ranking (cell : Cell α) :
    cell.ranking.Pairwise fun a b => ¬ compare a.1 b.1 = .eq := by
  have hsymm : ∀ {a b : String × Analysis α}, ¬ compare a.1 b.1 = .eq → ¬ compare b.1 a.1 = .eq :=
    fun h h' => h (Std.OrientedCmp.eq_symm h')
  exact ((List.mergeSort_perm cell.toList _).pairwise_iff hsymm).mpr
    Std.TreeMap.distinct_keys_toList

/-- What a beam leaves of the ranking. -/
def kept (beam : Nat) (cell : Cell α) : List (String × Analysis α) :=
  if 0 < beam ∧ beam < cell.size then cell.ranking.take beam else cell.ranking

/-- A pruned cell holds the analyses that the beam leaves. -/
theorem getElem?_prune {beam : Nat} {label : String} {a : Analysis α} :
    (cell.prune beam)[label]? = some a ↔ (label, a) ∈ cell.kept beam := by
  unfold prune kept
  split
  · have hdistinct := cell.pairwise_ranking.sublist (List.take_sublist beam _)
    constructor
    · intro h
      have hlabel : label ∈ Std.TreeMap.ofList (cell.ranking.take beam) compare :=
        Std.TreeMap.mem_iff_isSome_getElem?.mpr (by rw [h]; rfl)
      have hkey : label ∈ (cell.ranking.take beam).map Prod.fst :=
        List.elem_iff.mp (Std.TreeMap.mem_ofList.mp hlabel)
      obtain ⟨⟨_, b⟩, hb, rfl⟩ := List.mem_map.mp hkey
      rw [Std.TreeMap.getElem?_ofList_of_mem (by simp) hdistinct hb] at h
      cases h
      exact hb
    · exact fun h => Std.TreeMap.getElem?_ofList_of_mem (by simp) hdistinct h
  · rw [mem_ranking]

/-- What is left in a pruned cell has been in it before. -/
theorem getElem?_of_getElem?_prune {beam : Nat} {label : String} {a : Analysis α}
    (h : (cell.prune beam)[label]? = some a) : cell[label]? = some a := by
  have hkept := getElem?_prune.mp h
  unfold kept at hkept
  split at hkept
  · exact mem_ranking.mp (List.mem_of_mem_take hkept)
  · exact mem_ranking.mp hkept

theorem Every.prune (h : Every P cell) (beam : Nat) : Every P (cell.prune beam) :=
  fun label a ha => h label a (getElem?_of_getElem?_prune ha)

/-- A beam bounds the number of labels. -/
theorem size_prune_le (cell : Cell α) {beam : Nat} (h : 0 < beam) :
    (cell.prune beam).size ≤ beam := by
  unfold Cell.prune
  split
  · exact Nat.le_trans Std.TreeMap.size_ofList_le (List.length_take_le _ _)
  · omega

/-! ### Scores that are reached -/

/-- The cell holds an analysis of a label that compares with a score. -/
def Reaches (R : σ → σ → Prop) (cell : Cell α) (label : String) (s : σ) : Prop :=
  ∃ a, cell[label]? = some a ∧ R s a.score

variable {R : σ → σ → Prop} (hR : Score.Comparison R)
include hR

theorem Reaches.mono {label : String} {s t : σ} (h : cell.Reaches R label t) (hst : R s t) :
    cell.Reaches R label s := by
  obtain ⟨a, ha, hs⟩ := h
  exact ⟨a, ha, hR.trans hst hs⟩

theorem reaches_offer_self (cell : Cell α) (a : Analysis α) :
    (cell.offer a).Reaches R a.label a.score := by
  by_cases h : cell.accepts a = true
  · exact ⟨a, by simp [getElem?_offer, h], hR.refl _⟩
  · unfold accepts at h
    cases hl : cell[a.label]? with
    | none => simp [hl] at h
    | some held =>
      have hle : a.score ≤ held.score := by simpa [hl] using h
      exact ⟨held, by simp [getElem?_offer, accepts, hl, hle], hR.of_le hle⟩

theorem Reaches.offer {label : String} {s : σ} (h : cell.Reaches R label s) (a : Analysis α) :
    (cell.offer a).Reaches R label s := by
  obtain ⟨held, hl, hs⟩ := h
  by_cases hc : cell.accepts a = true ∧ a.label = label
  · have hle : ¬ a.score ≤ held.score := not_le_of_accepts hc.1 (hc.2 ▸ hl)
    exact ⟨a, by simp [getElem?_offer, hc], hR.trans hs (hR.of_not_le hle)⟩
  · exact ⟨held, by rw [getElem?_offer, if_neg hc, hl], hs⟩

theorem Reaches.foldl_offer {label : String} {s : σ} (h : cell.Reaches R label s)
    (as : List (Analysis α)) : (as.foldl Cell.offer cell).Reaches R label s := by
  induction as generalizing cell with
  | nil => exact h
  | cons a as ih => exact ih (h.offer hR a)

theorem reaches_foldl_offer (cell : Cell α) {as : List (Analysis α)} {a : Analysis α}
    (ha : a ∈ as) : (as.foldl Cell.offer cell).Reaches R a.label a.score := by
  induction as generalizing cell with
  | nil => cases ha
  | cons b as ih =>
    rcases List.mem_cons.mp ha with rfl | ha
    · exact (reaches_offer_self hR cell a).foldl_offer hR as
    · exact ih (cell.offer b) ha

end Constituency.Cell
