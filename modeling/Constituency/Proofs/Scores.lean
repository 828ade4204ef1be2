import Constituency.Weight

/-!
# Laws of scores

A search for the best derivation compares scores and adds them. What it finds is best if any two
scores can be compared and a sum grows with its parts. What it finds at all does not hang on the
scores; a `Comparison` covers both readings, being either the order itself or the relation that
always holds. Among doubles there is one that is not a number and compares with nothing, not even
with itself.
-/
namespace Constituency

/-- Scores any two of which can be compared if they can be compared with themselves. -/
class NumberScore (σ : Type) [Score σ] : Prop where
  le_total : ∀ {a b : σ}, a ≤ a → b ≤ b → a ≤ b ∨ b ≤ a
  le_trans : ∀ {a b c : σ}, a ≤ b → b ≤ c → a ≤ c
  refl_of_le : ∀ {a b : σ}, a ≤ b → a ≤ a ∧ b ≤ b

/-- Scores any two of which can be compared. -/
class TotalScore (σ : Type) [Score σ] : Prop where
  le_total : ∀ a b : σ, a ≤ b ∨ b ≤ a
  le_trans : ∀ {a b c : σ}, a ≤ b → b ≤ c → a ≤ c

theorem TotalScore.le_refl {σ : Type} [Score σ] [TotalScore σ] (a : σ) : a ≤ a :=
  (TotalScore.le_total a a).elim id id

instance TotalScore.numberScore {σ : Type} [Score σ] [TotalScore σ] : NumberScore σ where
  le_total _ _ := TotalScore.le_total _ _
  le_trans := TotalScore.le_trans
  refl_of_le _ := ⟨TotalScore.le_refl _, TotalScore.le_refl _⟩

/-- Scores any two of which can be compared, and whose sums grow with their parts. -/
class LawfulScore (σ : Type) [Score σ] : Prop where
  le_total : ∀ a b : σ, a ≤ b ∨ b ≤ a
  le_trans : ∀ {a b c : σ}, a ≤ b → b ≤ c → a ≤ c
  add_le_add_left : ∀ {a b : σ} (c : σ), a ≤ b → c + a ≤ c + b
  add_le_add_right : ∀ {a b : σ} (c : σ), a ≤ b → a + c ≤ b + c

instance LawfulScore.totalScore {σ : Type} [Score σ] [LawfulScore σ] : TotalScore σ where
  le_total := LawfulScore.le_total
  le_trans := LawfulScore.le_trans

namespace Score

variable {σ : Type} [Score σ]

/-- A relation that holds wherever the order decides for it, and that sums keep. -/
structure Comparison (R : σ → σ → Prop) : Prop where
  of_le : ∀ {a b}, a ≤ b → R a b
  of_not_le : ∀ {a b}, ¬ a ≤ b → R b a
  trans : ∀ {a b c}, R a b → R b c → R a c
  add : ∀ {a b c d}, R a b → R c d → R (a + c) (b + d)

/-- Whether or not the order is reflexive, a comparison is. -/
theorem Comparison.refl {R : σ → σ → Prop} (hR : Comparison R) (a : σ) : R a a := by
  by_cases h : a ≤ a
  · exact hR.of_le h
  · exact hR.of_not_le h

theorem comparison_le [LawfulScore σ] : Comparison (fun a b : σ => a ≤ b) where
  of_le h := h
  of_not_le {a b} h := (LawfulScore.le_total a b).resolve_left h
  trans := LawfulScore.le_trans
  add h h' := LawfulScore.le_trans (LawfulScore.add_le_add_right _ h)
    (LawfulScore.add_le_add_left _ h')

theorem comparison_true : Comparison (fun _ _ : σ => True) where
  of_le _ := trivial
  of_not_le _ := trivial
  trans _ _ := trivial
  add _ _ := trivial

end Score

end Constituency
