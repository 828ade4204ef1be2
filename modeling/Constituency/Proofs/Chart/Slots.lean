import Mathlib.Algebra.Ring.Parity
import Mathlib.Tactic.Linarith
import Constituency.Chart.Basic

/-!
# The places of spans

The spans of a chart lie in rows, one row for each first token. Different spans have different
places, and all places lie within the array; so a cell that is stored is read back, and no other
cell changes.
-/
namespace Constituency.Chart

/-- Where the row of a first token begins. -/
def rowStart (length first : Nat) : Nat :=
  first * (2 * length - first + 1) / 2

/-- Halving loses nothing. -/
theorem two_mul_rowStart {length first : Nat} (h : first ≤ length) :
    2 * rowStart length first = first * (2 * length - first + 1) := by
  apply Nat.mul_div_cancel'
  rcases Nat.even_or_odd first with he | ho
  · exact he.two_dvd.mul_right _
  · obtain ⟨k, hk⟩ := ho
    exact Dvd.dvd.mul_left ⟨length - k, by omega⟩ _

/-- The row of a first token has a place for every last token. -/
theorem rowStart_succ {length first : Nat} (h : first < length) :
    rowStart length (first + 1) = rowStart length first + (length - first) := by
  obtain ⟨k, rfl⟩ := Nat.exists_eq_add_of_lt h
  have h1 : 2 * rowStart (first + k + 1) first = _ := two_mul_rowStart (by omega)
  have h2 : 2 * rowStart (first + k + 1) (first + 1) = _ := two_mul_rowStart (by omega)
  have e1 : 2 * (first + k + 1) - first + 1 = first + 2 * k + 3 := by omega
  have e2 : 2 * (first + k + 1) - (first + 1) + 1 = first + 2 * k + 2 := by omega
  have e3 : first + k + 1 - first = k + 1 := by omega
  rw [e1] at h1
  rw [e2] at h2
  rw [e3]
  nlinarith

theorem rowStart_add_le {length first first' : Nat} (h : first < first') (h' : first' ≤ length) :
    rowStart length first + (length - first) ≤ rowStart length first' := by
  induction first', h using Nat.le_induction with
  | base => exact (rowStart_succ (by omega)).ge
  | succ k hk ih =>
    have hs : rowStart length (k + 1) = rowStart length k + (length - k) :=
      rowStart_succ (by omega)
    have hi := ih (by omega)
    omega

theorem slot?_of_span {length first last : Nat} (h : first ≤ last) (hl : last < length) :
    slot? length first last = some (rowStart length first + (last - first)) := by
  simp [slot?, h, hl, rowStart]

theorem slot?_eq_some_iff {length first last slot : Nat} :
    slot? length first last = some slot ↔
      (first ≤ last ∧ last < length) ∧ rowStart length first + (last - first) = slot := by
  simp [slot?, rowStart]

/-- The places lie within the array. -/
theorem slot_lt_size {length first last slot : Nat} (h : slot? length first last = some slot) :
    slot < length * (length + 1) / 2 := by
  obtain ⟨⟨hle, hlt⟩, rfl⟩ := slot?_eq_some_iff.mp h
  have hrow : rowStart length first + (length - first) ≤ rowStart length length :=
    rowStart_add_le (by omega) le_rfl
  have hall : rowStart length length = length * (length + 1) / 2 := by
    rw [rowStart]; congr 2; omega
  omega

/-- Different spans have different places. -/
theorem slot?_injective {length first last first' last' slot : Nat}
    (h : slot? length first last = some slot) (h' : slot? length first' last' = some slot) :
    first = first' ∧ last = last' := by
  obtain ⟨⟨hle, hlt⟩, hs⟩ := slot?_eq_some_iff.mp h
  obtain ⟨⟨hle', hlt'⟩, hs'⟩ := slot?_eq_some_iff.mp h'
  rcases Nat.lt_trichotomy first first' with hf | rfl | hf
  · have := rowStart_add_le hf (by omega : first' ≤ length)
    omega
  · omega
  · have := rowStart_add_le hf (by omega : first ≤ length)
    omega

variable {α σ : Type} [Score σ] [Logarithm α σ]

@[simp] theorem cell_empty (length first last : Nat) :
    (empty length : Chart α).cell first last = ∅ := by
  simp only [cell, cell?, empty]
  cases slot? length first last with
  | none => rfl
  | some slot => simp [Array.getElem?_replicate]; split <;> rfl

/-- Where a chart holds something there is a span. -/
theorem span_of_best? {chart : Chart α} {label : String} {first last : Nat} {a : Analysis α}
    (h : chart.best? label first last = some a) : first ≤ last ∧ last < chart.length := by
  by_contra hspan
  have hnone : slot? chart.length first last = none := if_neg hspan
  simp [best?, cell, cell?, hnone] at h

/-- A cell that is stored is found pruned. -/
theorem cell?_store_self (chart : Chart α) {first last : Nat} (beam : Nat) (cell : Cell α)
    (h : first ≤ last) (hl : last < chart.length) :
    (chart.store first last beam cell).cell? first last = some (cell.prune beam) := by
  have hs := slot?_of_span h hl
  have hsize := chart.size_cells ▸ slot_lt_size hs
  simp [cell?, store, hs, Array.getElem?_setIfInBounds_self_of_lt hsize]

/-- Storing a cell changes no other cell. -/
theorem cell?_store_of_ne (chart : Chart α) {first last first' last' : Nat} (beam : Nat)
    (cell : Cell α) (h : ¬ (first = first' ∧ last = last')) :
    (chart.store first last beam cell).cell? first' last' = chart.cell? first' last' := by
  cases hs : slot? chart.length first last with
  | none => simp [store, hs]
  | some slot =>
    cases hs' : slot? chart.length first' last' with
    | none => simp [cell?, store, hs, hs']
    | some slot' =>
      have hne : slot ≠ slot' := by
        rintro rfl
        exact h (slot?_injective hs hs')
      simp [cell?, store, hs, hs', Array.getElem?_setIfInBounds_ne hne]

theorem cell_store_self (chart : Chart α) {first last : Nat} (beam : Nat) (cell : Cell α)
    (h : first ≤ last) (hl : last < chart.length) :
    (chart.store first last beam cell).cell first last = cell.prune beam := by
  rw [Chart.cell, cell?_store_self chart beam cell h hl, Option.getD_some]

theorem cell_store_of_ne (chart : Chart α) {first last first' last' : Nat} (beam : Nat)
    (cell : Cell α) (h : ¬ (first = first' ∧ last = last')) :
    (chart.store first last beam cell).cell first' last' = chart.cell first' last' := by
  rw [Chart.cell, cell?_store_of_ne chart beam cell h, Chart.cell]

end Constituency.Chart
