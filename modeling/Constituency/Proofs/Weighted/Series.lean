import Mathlib.Algebra.BigOperators.Field
import Mathlib.Algebra.BigOperators.Ring.Finset
import Constituency.Proofs.ExactWeights
import Constituency.Proofs.Ruleset.Frames

/-!
# Formal series

A series gives every list of words a number. The product of two series sums over all places at
which a list can be cut. With a series for every label, a body has the product of the series of its
symbols, and a list of rules is solved if the series of each label is the weighted sum of the series
of its bodies. Without unary rules there is one solution at most that gives nothing to the empty
list.
-/
namespace Constituency

open Finset

/-- A number for every list of words. -/
abbrev Series := List String → ℚ

namespace Series

/-- The series of the empty list. -/
def one : Series :=
  fun words => if words = [] then 1 else 0

/-- The series of a word alone. -/
def letter (word : String) : Series :=
  fun words => if words = [word] then 1 else 0

/-- The product of two series. -/
def mul (f g : Series) : Series :=
  fun words => ∑ k ∈ range (words.length + 1), f (words.take k) * g (words.drop k)

theorem mul_one (f : Series) : f.mul one = f := by
  funext words
  rw [mul, sum_eq_single words.length]
  · simp [one]
  · intro k hk hne
    have hlt : k < words.length := by
      have := mem_range.mp hk
      omega
    simp [one, hlt]
  · intro hn
    exact absurd (mem_range.mpr (Nat.lt_succ_self _)) hn

theorem mul_nil (f g : Series) : f.mul g [] = f [] * g [] := by
  simp [mul]

/-- A product distributes over weighted sums. -/
theorem mul_sum_div {ι : Type} (f : Series) (items : List ι) (c : ι → ℚ) (g : ι → Series) (t : ℚ)
    (words : List String) :
    f.mul (fun ws => (items.map fun i => c i * g i ws).sum / t) words =
      (items.map fun i => c i * f.mul (g i) words).sum / t := by
  have hsum : ∑ k ∈ range (words.length + 1),
      f (words.take k) * (items.map fun i => c i * g i (words.drop k)).sum =
        (items.map fun i => c i * f.mul (g i) words).sum := by
    induction items with
    | nil => simp
    | cons i items ih =>
      simp only [List.map_cons, List.sum_cons, mul_add, sum_add_distrib, ih, mul, mul_sum]
      congr 1
      exact sum_congr rfl fun k _ => by ring
  rw [← hsum, mul, sum_div]
  exact sum_congr rfl fun k _ => by rw [mul_div_assoc]

end Series

variable {F G : String → Series}

/-- The series of a symbol. -/
def symbolSeries (F : String → Series) : Symbol → Series
  | .terminal word => .letter word
  | .nonterminal label => F label

/-- The series of a body. -/
def bodySeries (F : String → Series) : List Symbol → Series
  | [] => .one
  | symbol :: rest => (symbolSeries F symbol).mul (bodySeries F rest)

theorem bodySeries_singleton (symbol : Symbol) :
    bodySeries F [symbol] = symbolSeries F symbol :=
  Series.mul_one _

theorem bodySeries_pair (first second : Symbol) :
    bodySeries F [first, second] = (symbolSeries F first).mul (symbolSeries F second) := by
  rw [bodySeries, bodySeries_singleton]

/-- The series of a body hangs on the series of its labels only. -/
theorem bodySeries_congr {body : List Symbol}
    (h : ∀ symbol ∈ body, symbolSeries F symbol = symbolSeries G symbol) :
    bodySeries F body = bodySeries G body := by
  induction body with
  | nil => rfl
  | cons symbol rest ih =>
    rw [bodySeries, bodySeries, h symbol List.mem_cons_self,
      ih fun s hs => h s (List.mem_cons_of_mem symbol hs)]

theorem bodySeries_map {f : Symbol → Symbol} {body : List Symbol}
    (h : ∀ symbol ∈ body, symbolSeries F (f symbol) = symbolSeries G symbol) :
    bodySeries F (body.map f) = bodySeries G body := by
  induction body with
  | nil => rfl
  | cons symbol rest ih =>
    rw [List.map_cons, bodySeries, bodySeries, h symbol List.mem_cons_self,
      ih fun s hs => h s (List.mem_cons_of_mem symbol hs)]

/-! ### Series without the empty list -/

/-- Whether no label has anything for the empty list. -/
def IsProper (F : String → Series) : Prop :=
  ∀ label, F label [] = 0

theorem IsProper.symbolSeries_nil (hF : IsProper F) (symbol : Symbol) :
    symbolSeries F symbol [] = 0 := by
  cases symbol with
  | terminal word => rfl
  | nonterminal label => exact hF label

theorem IsProper.bodySeries_nil (hF : IsProper F) {body : List Symbol} (hbody : body ≠ []) :
    bodySeries F body [] = 0 := by
  obtain ⟨symbol, rest, rfl⟩ := List.exists_cons_of_ne_nil hbody
  rw [bodySeries, Series.mul_nil, hF.symbolSeries_nil, zero_mul]

/-- Two valuations that agree on lists shorter than `n` agree on what is shorter than `n` in every
body, and on what has length `n` in bodies with several symbols. -/
theorem bodySeries_eq_of_shorter (hF : IsProper F) (hG : IsProper G) {n : ℕ}
    (hshort : ∀ label words, words.length < n → F label words = G label words) :
    ∀ (body : List Symbol) (words : List String),
      words.length < n ∨ (words.length = n ∧ 2 ≤ body.length) →
        bodySeries F body words = bodySeries G body words := by
  have hsymbol : ∀ symbol words, words.length < n →
      symbolSeries F symbol words = symbolSeries G symbol words := by
    intro symbol words hlt
    cases symbol with
    | terminal word => rfl
    | nonterminal label => exact hshort label words hlt
  intro body
  induction body with
  | nil => intro words _; rfl
  | cons symbol rest ih =>
    intro words hwords
    simp only [bodySeries, Series.mul]
    refine sum_congr rfl fun k hk => ?_
    have hk' : k < words.length + 1 := mem_range.mp hk
    rcases hwords with hlt | ⟨rfl, hlong⟩
    · have htake : (words.take k).length < n := by rw [List.length_take]; omega
      have hdrop : (words.drop k).length < n := by rw [List.length_drop]; omega
      rw [hsymbol symbol _ htake, ih _ (.inl hdrop)]
    · -- Of the two parts of a cut at an end one is empty, and the product of it is zero.
      have hrest : rest ≠ [] := by
        rintro rfl
        simp at hlong
      rcases Nat.eq_zero_or_pos k with rfl | hpos
      · rw [List.take_zero, hF.symbolSeries_nil, hG.symbolSeries_nil, zero_mul, zero_mul]
      · rcases Nat.lt_or_ge k words.length with hlt | hge
        · have htake : (words.take k).length < words.length := by rw [List.length_take]; omega
          have hdrop : (words.drop k).length < words.length := by rw [List.length_drop]; omega
          rw [hsymbol symbol _ htake, ih _ (.inl hdrop)]
        · rw [List.drop_eq_nil_of_le hge, hF.bodySeries_nil hrest, hG.bodySeries_nil hrest,
            mul_zero, mul_zero]

end Constituency
