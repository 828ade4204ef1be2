import Mathlib.Data.Set.Function
import Constituency.Proofs.Chart.Slots

/-!
# Spans in rows

Listed row by row, the spans of a chart have the places 0, 1, 2 and so on: each row begins where the
one before it ends. So every place of the array belongs to one span, and to no other. The arithmetic
that finds a place can be done with machine words as long as the length times its successor fits into
one: nothing that comes up on the way is too great for a word, and no difference falls below zero.
-/
namespace Constituency

/-! ### Arithmetic that can fail -/

/-- A number, if it fits into a machine word. -/
def word? (n : Nat) : Option Nat :=
  if n < UInt64.size then some n else none

/-- A difference, if it does not fall below zero. -/
def difference? (m n : Nat) : Option Nat :=
  if n ≤ m then some (m - n) else none

theorem word?_of_lt {n : Nat} (h : n < UInt64.size) : word? n = some n :=
  if_pos h

theorem difference?_of_le {m n : Nat} (h : n ≤ m) : difference? m n = some (m - n) :=
  if_pos h

namespace Chart

/-- The number of places, computed with machine words. -/
def sizeInWords? (length : Nat) : Option Nat := do
  let next ← word? (length + 1)
  let twice ← word? (length * next)
  return twice / 2

/-- The place of a span, computed with machine words; the outer option is for the computation. -/
def slotInWords? (length first last : Nat) : Option (Option Nat) :=
  if first ≤ last ∧ last < length then do
    let double ← word? (2 * length)
    let rest ← difference? double first
    let next ← word? (rest + 1)
    let twice ← word? (first * next)
    let more ← difference? last first
    let slot ← word? (twice / 2 + more)
    return some slot
  else return none

/-- The spans of one first token. -/
def row (length first : Nat) : List (Nat × Nat) :=
  (List.range (length - first)).map fun more => (first, first + more)

/-- The spans row by row. -/
def rows (length : Nat) : List (Nat × Nat) :=
  (List.range length).flatMap (row length)

/-! ### The places of a row -/

theorem rowStart_length (length : Nat) : rowStart length length = length * (length + 1) / 2 := by
  rw [rowStart]
  congr 2
  omega

/-- A row takes the places from its start on. -/
theorem map_slot?_row (length first : Nat) :
    (row length first).map (fun span => slot? length span.1 span.2) =
      ((List.range (length - first)).map (rowStart length first + ·)).map some := by
  rw [row, List.map_map, List.map_map]
  refine List.map_congr_left fun more hmore => ?_
  have hlast : first + more < length := by
    have := List.mem_range.mp hmore
    omega
  simpa using slot?_of_span (Nat.le_add_right first more) hlast

/-- The rows before one fill the places up to its start. -/
theorem map_slot?_rows {length first : Nat} (h : first ≤ length) :
    ((List.range first).flatMap (row length)).map (fun span => slot? length span.1 span.2) =
      (List.range (rowStart length first)).map some := by
  induction first with
  | zero => simp [rowStart]
  | succ first ih =>
    rw [List.range_succ, List.flatMap_append, List.map_append, ih (by omega),
      List.flatMap_singleton, map_slot?_row, rowStart_succ h, List.range_add, List.map_append]

/-- What is no span has no place. -/
theorem slot?_eq_none {length first last : Nat} (h : ¬ (first ≤ last ∧ last < length)) :
    slot? length first last = none :=
  if_neg h

/-! ### Words are wide enough -/

section Words

variable {length first last : Nat} (hfits : length * (length + 1) < UInt64.size)
include hfits

theorem sizeInWords?_eq : sizeInWords? length = some (length * (length + 1) / 2) := by
  have hnext : length + 1 < UInt64.size := by
    rcases Nat.eq_zero_or_pos length with rfl | hpos
    · decide
    · exact Nat.lt_of_le_of_lt (Nat.le_mul_of_pos_left _ hpos) hfits
  simp [sizeInWords?, word?_of_lt hnext, word?_of_lt hfits]

/-- Twice the start of a row is at most twice the number of places. -/
theorem mul_lt_size (h : first ≤ length) : first * (2 * length - first + 1) < UInt64.size := by
  have hle : rowStart length first ≤ rowStart length length := by
    rcases Nat.eq_or_lt_of_le h with rfl | hlt
    · exact Nat.le_refl _
    · exact Nat.le_of_add_right_le (rowStart_add_le hlt le_rfl)
  have hall : 2 * rowStart length length = length * (length + 1) := by
    rw [two_mul_rowStart le_rfl]
    congr 1
    omega
  have hrow : 2 * rowStart length first = _ := two_mul_rowStart h
  omega

/-- With words that are wide enough nothing fails. -/
theorem slotInWords?_eq : slotInWords? length first last = some (slot? length first last) := by
  by_cases hspan : first ≤ last ∧ last < length
  · obtain ⟨hle, hlt⟩ := hspan
    have hlength : 2 * length < UInt64.size := by
      have := Nat.mul_le_mul_left length (show 2 ≤ length + 1 by omega)
      omega
    have hrest : first ≤ 2 * length := by omega
    have hnext : 2 * length - first + 1 < UInt64.size := by
      rcases Nat.eq_zero_or_pos first with rfl | hpos
      · have hodd : 2 * length + 1 ≠ UInt64.size := by
          rw [UInt64.size]
          omega
        omega
      · omega
    have htwice := mul_lt_size hfits (show first ≤ length by omega)
    have hslot : slot? length first last = _ := slot?_of_span hle hlt
    have hlast : rowStart length first + (last - first) < UInt64.size := by
      have := slot_lt_size hslot
      omega
    simp only [slotInWords?, hle, hlt, and_self, if_true, word?_of_lt hlength,
      difference?_of_le hrest, word?_of_lt hnext, word?_of_lt htwice, difference?_of_le hle,
      Option.bind_eq_bind, Option.bind_some]
    rw [← rowStart, word?_of_lt hlast, hslot]
    rfl
  · rw [slotInWords?, if_neg hspan, slot?_eq_none hspan]
    rfl

end Words

variable {α σ : Type} [Score σ] [Logarithm α σ]

/-- The spans are numbered row by row, by all places of the array and each by one; what is no span
has no place. To find a place, halving loses nothing, words are wide enough and no difference falls
below zero, and the place lies within the array. -/
theorem bijOn_slot? (length : Nat) (hfits : length * (length + 1) < UInt64.size) :
    Set.BijOn (fun span : Nat × Nat => slot? length span.1 span.2)
        {span | span.1 ≤ span.2 ∧ span.2 < length}
        (some '' Set.Iio (length * (length + 1) / 2)) ∧
      (rows length).map (fun span => slot? length span.1 span.2) =
        (List.range (length * (length + 1) / 2)).map some ∧
      (∀ first last, ¬ (first ≤ last ∧ last < length) → slot? length first last = none) ∧
      (∀ first last, first ≤ last → last < length →
        2 * (first * (2 * length - first + 1) / 2) = first * (2 * length - first + 1)) ∧
      (∀ first last, slotInWords? length first last = some (slot? length first last)) ∧
      sizeInWords? length = some (empty length : Chart α).cells.size ∧
      ∀ chart : Chart α, chart.length = length → ∀ first last slot,
        slot? length first last = some slot → slot < chart.cells.size := by
  have hrows : (rows length).map (fun span => slot? length span.1 span.2) =
      (List.range (length * (length + 1) / 2)).map some := by
    rw [rows, map_slot?_rows le_rfl, rowStart_length]
  refine ⟨⟨?maps, ?inj, ?surj⟩, hrows, fun _ _ => slot?_eq_none,
    fun first last hle hlt => two_mul_rowStart (by omega), fun _ _ => slotInWords?_eq hfits,
    ?size, ?bound⟩
  case maps =>
    rintro ⟨first, last⟩ ⟨hle, hlt⟩
    have hslot := slot?_of_span hle hlt
    exact ⟨_, slot_lt_size hslot, hslot.symm⟩
  case inj =>
    rintro ⟨first, last⟩ ⟨hle, hlt⟩ ⟨first', last'⟩ - heq
    have hslot := slot?_of_span hle hlt
    obtain ⟨rfl, rfl⟩ := slot?_injective hslot (heq.symm.trans hslot)
    rfl
  case surj =>
    rintro _ ⟨slot, hlt, rfl⟩
    have hmem : some slot ∈ (rows length).map fun span => slot? length span.1 span.2 :=
      hrows ▸ List.mem_map_of_mem (List.mem_range.mpr hlt)
    obtain ⟨⟨first, last⟩, -, hslot⟩ := List.mem_map.mp hmem
    exact ⟨(first, last), (slot?_eq_some_iff.mp hslot).1, hslot⟩
  case size =>
    rw [sizeInWords?_eq hfits, empty, Array.size_replicate]
  case bound =>
    rintro chart rfl first last slot hslot
    exact chart.size_cells ▸ slot_lt_size hslot

/-- Four tokens have ten spans. -/
theorem bijOn_slot?_four :
    4 * (4 + 1) < UInt64.size ∧
      [(0, 0), (0, 1), (0, 2), (0, 3), (1, 1), (1, 2), (1, 3), (2, 2), (2, 3), (3, 3)].map
          (fun span : Nat × Nat => slot? 4 span.1 span.2) = (List.range 10).map some ∧
      slot? 4 2 1 = none ∧ slot? 4 0 4 = none := by
  have hfits : 4 * (4 + 1) < UInt64.size := by decide
  obtain ⟨-, hrows, hnone, -⟩ := bijOn_slot? (α := Float) 4 hfits
  exact ⟨hfits, hrows, hnone 2 1 (by decide), hnone 0 4 (by decide)⟩

end Chart

end Constituency
