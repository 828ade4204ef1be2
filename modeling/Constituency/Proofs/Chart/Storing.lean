import Mathlib.Data.List.Sigma
import Mathlib.Data.String.Basic
import Constituency.Proofs.Chart.Offers
import Constituency.Proofs.Chart.Slots
import Constituency.Proofs.ExactWeights

/-!
# What storing a cell leaves in a chart

The ranking of a cell sorts its entries by their scores, and the sort is stable; since a cell lists
its entries by their labels, those that are equally good stay in the order of labels. So a beam cuts
a list off in which the order of any two entries is settled, and a cell that is stored is read back
with the entries before the cut. No other cell changes.
-/
namespace Constituency

/-- A relation that holds along a list holds along the sorted list between elements that the sort
takes for equal. -/
theorem pairwise_mergeSort_stable {β : Type} {le : β → β → Bool} {r : β → β → Prop} {l : List β}
    (trans : ∀ a b c, le a b = true → le b c = true → le a c = true)
    (total : ∀ a b, (le a b || le b a) = true) (hr : l.Pairwise r) :
    (l.mergeSort le).Pairwise fun a b => le a b = true ∧ (le b a = true → r a b) := by
  have hsorted := List.pairwise_mergeSort (List.zipIdxLE_trans trans) (List.zipIdxLE_total total)
    l.zipIdx
  have hapart : (l.zipIdx.mergeSort (List.zipIdxLE le)).Pairwise fun a b => a.2 ≠ b.2 := by
    refine List.pairwise_map.mp ?_
    exact ((List.mergeSort_perm _ _).map Prod.snd).nodup_iff.mpr (List.nodup_zipIdx_map_snd l)
  rw [← List.mergeSort_zipIdx, List.pairwise_map]
  refine (hsorted.and hapart).imp_of_mem fun {a b} ha hb ⟨hle, hne⟩ => ?_
  have hget := List.mem_zipIdx_iff_getElem?.mp (List.mem_mergeSort.mp ha)
  have hget' := List.mem_zipIdx_iff_getElem?.mp (List.mem_mergeSort.mp hb)
  obtain ⟨hlt, heq⟩ := List.getElem?_eq_some_iff.mp hget
  obtain ⟨hlt', heq'⟩ := List.getElem?_eq_some_iff.mp hget'
  rw [List.zipIdxLE] at hle
  split at hle
  · rename_i hab
    refine ⟨hab, fun hba => ?_⟩
    have hbefore : a.2 < b.2 := by
      rw [if_pos hba] at hle
      exact Nat.lt_of_le_of_ne (of_decide_eq_true hle) hne
    exact heq ▸ heq' ▸ List.pairwise_iff_getElem.mp hr _ _ hlt hlt' hbefore
  · cases hle

variable {α σ : Type} [Score σ] [Logarithm α σ]

namespace Cell

/-- Whether an entry comes before another one: its score is not less, and among equally great scores
its label is less. -/
def Precedes (entry other : String × Analysis α) : Prop :=
  other.2.score ≤ entry.2.score ∧ (entry.2.score ≤ other.2.score → entry.1 < other.1)

/-- A list of all entries of a cell, each before those that it precedes. -/
structure IsOrdering (cell : Cell α) (entries : List (String × Analysis α)) : Prop where
  perm : entries.Perm cell.toList
  ordered : entries.Pairwise Precedes

variable {cell : Cell α}

/-- There is one such list at most. -/
theorem IsOrdering.eq {entries entries' : List (String × Analysis α)} (h : cell.IsOrdering entries)
    (h' : cell.IsOrdering entries') : entries = entries' := by
  refine List.Perm.eq_of_pairwise (fun a b _ _ hab hba => ?_) h.ordered h'.ordered
    (h.perm.trans h'.perm.symm)
  exact (lt_asymm (hab.2 hba.1) (hba.2 hab.1)).elim

/-- The ranking is that list, if all scores are numbers. -/
theorem isOrdering_ranking [NumberScore σ]
    (hnumber : ∀ entry ∈ cell.toList, entry.2.score ≤ entry.2.score) :
    cell.IsOrdering cell.ranking := by
  refine ⟨List.mergeSort_perm _ _, ?_⟩
  -- The comparison is total on entries with numbers only.
  let entries := cell.toList.attachWith _ hnumber
  have hentries : entries.map Subtype.val = cell.toList := List.attachWith_map_subtype_val hnumber
  have hranking : cell.ranking =
      (entries.mergeSort fun a b => ranksBefore a.1.2 b.1.2).map Subtype.val := by
    rw [ranking, ← hentries]
    exact (List.map_mergeSort (f := Subtype.val) fun _ _ _ _ => rfl).symm
  have hlabels : entries.Pairwise fun a b => a.1.1 < b.1.1 := by
    have hordered := Std.TreeMap.ordered_keys_toList (t := cell)
    rw [← hentries, List.pairwise_map] at hordered
    exact hordered.imp compare_lt_iff_lt.mp
  rw [hranking, List.pairwise_map]
  refine (pairwise_mergeSort_stable (fun a b c => ?_) (fun a b => ?_) hlabels).imp fun h => ?_
  · simp only [ranksBefore, decide_eq_true_iff]
    exact fun hab hbc => NumberScore.le_trans hbc hab
  · simp only [ranksBefore, Bool.or_eq_true, decide_eq_true_iff]
    exact NumberScore.le_total b.2 a.2
  · exact ⟨of_decide_eq_true h.1, fun hle => h.2 (decide_eq_true hle)⟩

/-- A beam that is too narrow for a cell keeps as many labels as it is wide. -/
theorem size_prune_of_lt {beam : Nat} (hbeam : beam ≠ 0) (hsize : beam < cell.size) :
    (cell.prune beam).size = beam := by
  have hlength : cell.ranking.length = cell.size := by
    rw [ranking, List.length_mergeSort, Std.TreeMap.length_toList]
  rw [prune, if_pos ⟨Nat.pos_of_ne_zero hbeam, hsize⟩, Std.TreeMap.size_ofList
    (cell.pairwise_ranking.sublist (List.take_sublist beam _)), List.length_take, hlength]
  exact Nat.min_eq_left hsize.le

end Cell

namespace Chart

/-- A cell that is stored is read back as it is if the beam is zero or no narrower than the cell.
Otherwise as many entries are read back as the beam is wide: the first in the order of decreasing
scores, and of labels among equal scores, each with its analysis. Every other span reads back what it
held before, and storing at what is no span changes nothing. -/
theorem store_keeps [NumberScore σ] (chart : Chart α) (first last beam : Nat) (cell : Cell α) :
    (first ≤ last → last < chart.length →
      ∃ kept, (chart.store first last beam cell).cell? first last = some kept ∧
        (beam = 0 ∨ cell.size ≤ beam → kept = cell) ∧
        (beam ≠ 0 → beam < cell.size → kept.size = beam ∧
          ((∀ entry ∈ cell.toList, entry.2.score ≤ entry.2.score) →
            (∃ entries, cell.IsOrdering entries) ∧
              ∀ entries, cell.IsOrdering entries → ∀ (label : String) (a : Analysis α),
                kept[label]? = some a ↔ (label, a) ∈ entries.take beam))) ∧
    (∀ first' last', ¬ (first = first' ∧ last = last') →
      (chart.store first last beam cell).cell? first' last' = chart.cell? first' last') ∧
    (¬ (first ≤ last ∧ last < chart.length) → chart.store first last beam cell = chart) := by
  refine ⟨fun hle hlt => ⟨_, cell?_store_self chart beam cell hle hlt, fun hwide => ?wide,
    fun hbeam hsize => ⟨Cell.size_prune_of_lt hbeam hsize, fun hnumber => ?narrow⟩⟩,
    fun _ _ => cell?_store_of_ne chart beam cell, fun hspan => ?outside⟩
  case wide =>
    have hkeep : ¬ (0 < beam ∧ beam < cell.size) := by omega
    rw [Cell.prune, if_neg hkeep]
  case narrow =>
    have hranking := Cell.isOrdering_ranking hnumber
    refine ⟨⟨_, hranking⟩, fun entries hentries label a => ?_⟩
    rw [Cell.getElem?_prune, Cell.kept, if_pos ⟨Nat.pos_of_ne_zero hbeam, hsize⟩,
      hranking.eq hentries]
  case outside =>
    have hslot : slot? chart.length first last = none := if_neg hspan
    rw [store, hslot]

/-- Three labels of a word, two of them with equal scores and one with a greater score. -/
noncomputable def tiedCell : Cell ℚ :=
  (((∅ : Cell ℚ).insert "A" (.lexical (.lexical "A" "w" (1 / 2)) "w" 0)).insert "B"
    (.lexical (.lexical "B" "w" (1 / 2)) "w" 0)).insert "C" (.lexical (.lexical "C" "w" 1) "w" 0)

/-- The entry of a label in that cell. -/
noncomputable def tiedEntry (label : String) (weight : ℚ) : String × Analysis ℚ :=
  (label, .lexical (.lexical label "w" weight) "w" 0)

theorem isOrdering_tiedCell :
    tiedCell.IsOrdering [tiedEntry "C" 1, tiedEntry "A" (1 / 2), tiedEntry "B" (1 / 2)] where
  perm := by
    have hlist : tiedCell.toList =
        [tiedEntry "A" (1 / 2), tiedEntry "B" (1 / 2), tiedEntry "C" 1] := rfl
    rw [hlist]
    exact (List.perm_append_singleton _ _).symm
  ordered := by
    have hlog : Real.log ((1 / 2 : ℚ) : ℝ) < Real.log ((1 : ℚ) : ℝ) :=
      Real.log_lt_log (by norm_num) (by norm_num)
    have hfirst : ∀ label, Cell.Precedes (tiedEntry "C" 1) (tiedEntry label (1 / 2)) :=
      fun _ => ⟨hlog.le, fun hle => absurd hle hlog.not_ge⟩
    have htie : Cell.Precedes (tiedEntry "A" (1 / 2)) (tiedEntry "B" (1 / 2)) :=
      ⟨le_refl _, fun _ => by decide⟩
    rw [List.pairwise_cons, List.forall_mem_cons, List.forall_mem_singleton, List.pairwise_pair]
    exact ⟨⟨hfirst "A", hfirst "B"⟩, htie⟩

/-- Of the two labels with equal scores the beam leaves the first. -/
theorem store_keeps_tied :
    (∀ entry ∈ tiedCell.toList, entry.2.score ≤ entry.2.score) ∧
      ∃ kept, ((empty 2).store 0 1 2 tiedCell).cell? 0 1 = some kept ∧ kept.size = 2 ∧
        (∃ a, kept["C"]? = some a) ∧ (∃ a, kept["A"]? = some a) ∧ kept["B"]? = none ∧
        ((empty 2).store 0 1 2 tiedCell).cell? 1 1 = (empty 2).cell? 1 1 ∧
        (empty 2).store 1 0 2 tiedCell = empty 2 := by
  have hnumber : ∀ entry ∈ tiedCell.toList, entry.2.score ≤ entry.2.score :=
    fun _ _ => le_refl _
  obtain ⟨hstore, hother, -⟩ := store_keeps (empty 2) 0 1 2 tiedCell
  obtain ⟨kept, hkept, -, hnarrow⟩ := hstore (by decide) (by decide)
  obtain ⟨hsize, hentries⟩ := hnarrow (by decide) (by decide)
  have hmem := (hentries hnumber).2 _ isOrdering_tiedCell
  refine ⟨hnumber, kept, hkept, hsize, ⟨_, (hmem "C" _).mpr List.mem_cons_self⟩,
    ⟨_, (hmem "A" _).mpr (List.mem_cons_of_mem _ List.mem_cons_self)⟩, ?_, hother 1 1 (by decide),
    (store_keeps (empty 2) 1 0 2 tiedCell).2.2 (by decide)⟩
  refine Option.eq_none_iff_forall_ne_some.mpr fun a ha => ?_
  have htake := (hmem "B" a).mp ha
  simp [tiedEntry] at htake

end Chart

end Constituency
