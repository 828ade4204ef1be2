import Constituency.Proofs.ExactWeights
import Constituency.NormalForm.Merging

/-!
# Merged rules

The frame of a rule is all of it but the weight. Merging leaves one rule for each frame that there
is, and with exact weights it has the sum of the weights of the rules with this frame.
-/
namespace Constituency

/-- A head, a body and a language. -/
abbrev Frame := String × List Symbol × Option String

/-- All of a rule but its weight. -/
def Rule.frame {α : Type} (rule : Rule α) : Frame :=
  (rule.head, rule.body, rule.language)

theorem Rule.sameFrame_iff {α : Type} {rule other : Rule α} :
    rule.sameFrame other = true ↔ rule.frame = other.frame := by
  simp [sameFrame, frame, and_assoc]

namespace Ruleset

section Frames

variable {α : Type} [Weight α] {rules merged : Ruleset α} {rule : Rule α} {frame : Frame}

theorem map_frame_absorb (merged : Ruleset α) (rule : Rule α) :
    (absorb merged rule).map Rule.frame =
      if rule.frame ∈ merged.map Rule.frame then merged.map Rule.frame
      else merged.map Rule.frame ++ [rule.frame] := by
  induction merged with
  | nil => rfl
  | cons first rest ih =>
    rw [absorb]
    by_cases hsame : first.frame = rule.frame
    · rw [if_pos (Rule.sameFrame_iff.mpr hsame), if_pos (by simp [hsame])]
      rfl
    · have hmem : rule.frame ∈ (first :: rest).map Rule.frame ↔
          rule.frame ∈ rest.map Rule.frame := by
        rw [List.map_cons, List.mem_cons, or_iff_right fun h => hsame h.symm]
      rw [if_neg fun h => hsame (Rule.sameFrame_iff.mp h), List.map_cons, ih, if_congr hmem rfl rfl]
      split <;> rfl

/-- A rule with a new frame is put at the end. -/
theorem absorb_of_notMem (h : rule.frame ∉ merged.map Rule.frame) :
    absorb merged rule = merged ++ [rule] := by
  induction merged with
  | nil => rfl
  | cons first rest ih =>
    rw [List.map_cons, List.mem_cons, not_or] at h
    have hsame : ¬ first.sameFrame rule = true := fun hf => h.1 (Rule.sameFrame_iff.mp hf).symm
    rw [absorb, if_neg hsame, ih h.2, List.cons_append]

theorem merge_concat (rules : Ruleset α) (rule : Rule α) :
    merge (rules ++ [rule]) = absorb rules.merge rule := by
  rw [merge, List.foldl_append]
  rfl

/-- Merging keeps the frames that there are. -/
theorem mem_map_frame_merge :
    frame ∈ rules.merge.map Rule.frame ↔ frame ∈ rules.map Rule.frame := by
  induction rules using List.reverseRecOn with
  | nil => rfl
  | append_singleton rules rule ih =>
    rw [merge_concat, map_frame_absorb, List.map_append, List.mem_append, ← ih]
    split
    · rename_i hmem
      refine ⟨.inl, fun h => h.elim id fun h => ?_⟩
      rw [List.mem_singleton.mp h]
      exact hmem
    · rw [List.mem_append]
      rfl

/-- No two merged rules have the same frame. -/
theorem nodup_map_frame_merge (rules : Ruleset α) : (rules.merge.map Rule.frame).Nodup := by
  induction rules using List.reverseRecOn with
  | nil => exact List.nodup_nil
  | append_singleton rules rule ih =>
    rw [merge_concat, map_frame_absorb]
    split
    · exact ih
    · rename_i hmem
      exact List.nodup_append.mpr ⟨ih, List.nodup_singleton _, by
        rintro a ha b hb rfl
        exact hmem (List.mem_singleton.mp hb ▸ ha)⟩

/-- Rules no two of which have the same frame stay as they are. -/
theorem merge_of_nodup (h : (rules.map Rule.frame).Nodup) : rules.merge = rules := by
  induction rules using List.reverseRecOn with
  | nil => rfl
  | append_singleton rules rule ih =>
    rw [List.map_append, List.map_singleton, ← List.concat_eq_append, List.nodup_concat] at h
    rw [merge_concat, ih h.2, absorb_of_notMem h.1]

end Frames

section Weights

variable {rules others : Ruleset ℚ} {rule : Rule ℚ} {frame : Frame}

/-- The sum of the weights of the rules with a frame. -/
def weightAt (rules : Ruleset ℚ) (frame : Frame) : ℚ :=
  ((rules.filter (·.frame = frame)).map (·.weight)).sum

theorem weightAt_append : weightAt (rules ++ others) frame =
    rules.weightAt frame + others.weightAt frame := by
  simp [weightAt]

theorem weightAt_singleton :
    weightAt [rule] frame = if rule.frame = frame then rule.weight else 0 := by
  by_cases h : rule.frame = frame <;> simp [weightAt, h]

theorem weightAt_cons : weightAt (rule :: rules) frame =
    (if rule.frame = frame then rule.weight else 0) + rules.weightAt frame := by
  rw [← List.singleton_append, weightAt_append, weightAt_singleton]

/-- No rule with a frame has no weight at it. -/
theorem weightAt_eq_zero (h : frame ∉ rules.map Rule.frame) : rules.weightAt frame = 0 := by
  have hnone : rules.filter (·.frame = frame) = [] :=
    List.filter_eq_nil_iff.mpr fun rule hr hframe =>
      h (List.mem_map.mpr ⟨rule, hr, of_decide_eq_true hframe⟩)
  rw [weightAt, hnone]
  rfl

theorem weightAt_absorb : (absorb rules rule).weightAt frame =
    rules.weightAt frame + if rule.frame = frame then rule.weight else 0 := by
  induction rules with
  | nil => exact weightAt_singleton.trans (zero_add _).symm
  | cons first rest ih =>
    rw [absorb]
    by_cases hsame : first.frame = rule.frame
    · rw [if_pos (Rule.sameFrame_iff.mpr hsame), weightAt_cons, weightAt_cons, ← hsame]
      change (if first.frame = frame then first.weight + rule.weight else 0) + _ = _
      split <;> ring
    · rw [if_neg fun h => hsame (Rule.sameFrame_iff.mp h), weightAt_cons, weightAt_cons, ih,
        add_assoc]

/-- Merging keeps the sum of the weights for each frame. -/
theorem weightAt_merge (rules : Ruleset ℚ) (frame : Frame) :
    rules.merge.weightAt frame = rules.weightAt frame := by
  induction rules using List.reverseRecOn with
  | nil => rfl
  | append_singleton rules rule ih =>
    rw [merge_concat, weightAt_absorb, weightAt_append, weightAt_singleton, ih]

/-- The only rule with a frame has the weight at it. -/
theorem weightAt_eq_weight (hframes : (rules.map Rule.frame).Nodup) (hr : rule ∈ rules) :
    rules.weightAt rule.frame = rule.weight := by
  induction rules with
  | nil => cases hr
  | cons first rest ih =>
    rw [List.map_cons, List.nodup_cons] at hframes
    obtain ⟨hfirst, hrest⟩ := hframes
    rw [weightAt_cons]
    rcases List.mem_cons.mp hr with rfl | hr
    · rw [if_pos rfl, weightAt_eq_zero hfirst, add_zero]
    · have hne : first.frame ≠ rule.frame :=
        fun h => hfirst (h ▸ List.mem_map_of_mem hr)
      rw [if_neg hne, zero_add, ih hrest hr]

end Weights

end Ruleset

end Constituency
