import Constituency.Proofs.Weighted.Forests

/-!
# Inside sums

The inside sum of a body adds the weights of all derivations of a list of words from it. If there
are finitely many of them, the inside sums of labels are a proper solution of the rules.
-/
namespace Constituency

open Finset

variable {rules : Ruleset ℚ}

/-- The sum of the weights of all derivations of a list of words from a list of symbols. -/
noncomputable def inside (rules : Ruleset ℚ) (body : List Symbol) (words : List String) : ℚ :=
  ∑ᶠ d ∈ derivations rules body words, d.weight

/-- The inside sums of all labels. -/
noncomputable def insideSeries (rules : Ruleset ℚ) (label : String) : Series :=
  inside rules [.nonterminal label]

theorem inside_nil : inside rules [] = Series.one := by
  funext words
  rw [inside, derivations_nil]
  by_cases h : words = []
  · simp [h, Series.one, Forest.weight]
  · simp [h, Series.one]

theorem inside_word (word : String) (rest : List Symbol) :
    inside rules (.terminal word :: rest) = (Series.letter word).mul (inside rules rest) := by
  funext words
  cases words with
  | nil => simp [inside, derivations_word_nil, Series.mul_nil, Series.letter]
  | cons w ws =>
    have hmul : (Series.letter word).mul (inside rules rest) (w :: ws) =
        if word = w then inside rules rest ws else 0 := by
      rw [Series.mul, sum_eq_single 1]
      · by_cases h : word = w <;> simp [Series.letter, h, eq_comm]
      · intro k hk hne
        have hk' : k < ws.length + 2 := mem_range.mp hk
        have hletter : (w :: ws).take k ≠ [word] := by
          intro h
          have hlength := congrArg List.length h
          simp only [List.length_take, List.length_cons, List.length_nil] at hlength
          omega
        rw [Series.letter, if_neg hletter, zero_mul]
      · simp
    rw [hmul, inside, derivations_word_cons]
    by_cases h : word = w
    · have himage : {d | word = w ∧ ∃ d' ∈ derivations rules rest ws, .word word d' = d} =
          Forest.word word '' derivations rules rest ws := by
        ext d
        simp [h]
      have hinjective : Set.InjOn (Forest.word word) (derivations rules rest ws) := by
        intro a _ b _ hab
        cases hab
        rfl
      rw [himage, finsum_mem_image hinjective, if_pos h]
      rfl
    · simp [h]

section Finite

variable (hfinite : ∀ body words, (derivations rules body words).Finite)
include hfinite

/-- What a derivation of a label and of what follows it is made of: a cut of the words, a rule, and
derivations of both parts. -/
noncomputable def choices (label : String) (rest : List Symbol) (words : List String) :
    Finset (Σ _ : ℕ × Fin rules.length, Forest rules × Forest rules) :=
  (range (words.length + 1) ×ˢ
      univ.filter fun place : Fin rules.length => (rules.get place).head = label).sigma fun c =>
    (hfinite (rules.get c.2).body (words.take c.1)).toFinset ×ˢ
      (hfinite rest (words.drop c.1)).toFinset

theorem mem_choices {label : String} {rest : List Symbol} {words : List String} {k : ℕ}
    {place : Fin rules.length} {below d : Forest rules} :
    ⟨⟨k, place⟩, below, d⟩ ∈ choices hfinite label rest words ↔
      k ≤ words.length ∧ (rules.get place).head = label ∧
        below ∈ derivations rules (rules.get place).body (words.take k) ∧
          d ∈ derivations rules rest (words.drop k) := by
  simp only [choices, mem_sigma, mem_product, mem_range, mem_filter, mem_univ, true_and,
    Set.Finite.mem_toFinset, Nat.lt_succ_iff, and_assoc]

/-- The words of the derivation below a label end at the cut. -/
theorem length_words_of_mem_choices {label : String} {rest : List Symbol} {words : List String}
    {k : ℕ} {place : Fin rules.length} {below d : Forest rules}
    (h : ⟨⟨k, place⟩, below, d⟩ ∈ choices hfinite label rest words) : below.words.length = k := by
  obtain ⟨hk, -, hbelow, -⟩ := (mem_choices hfinite).mp h
  rw [hbelow.words_eq, List.length_take]
  exact Nat.min_eq_left hk

/-- Derivations of a label and of what follows it are the choices; the weight of one is the product
of what is chosen. -/
theorem inside_eq_sum_choices (label : String) (rest : List Symbol) (words : List String) :
    inside rules (.nonterminal label :: rest) words =
      ∑ c ∈ choices hfinite label rest words,
        (rules.get c.1.2).weight * c.2.1.weight * c.2.2.weight := by
  rw [inside, finsum_mem_eq_finite_toFinset_sum _ (hfinite _ words)]
  symm
  refine sum_bij (fun c _ => Forest.node c.1.2 c.2.1 c.2.2) ?_ ?_ ?_ ?_
  · rintro ⟨⟨k, place⟩, below, d⟩ hc
    obtain ⟨hk, hhead, hbelow, hd⟩ := (mem_choices hfinite).mp hc
    rw [Set.Finite.mem_toFinset]
    exact mem_derivations_label.mpr ⟨place, hhead, k, hk, below, hbelow, d, hd, rfl⟩
  · rintro ⟨⟨k, place⟩, below, d⟩ hc ⟨⟨k', place'⟩, below', d'⟩ hc' heq
    cases heq
    have hk := length_words_of_mem_choices hfinite hc
    have hk' := length_words_of_mem_choices hfinite hc'
    rw [← hk, ← hk']
  · intro d hd
    obtain ⟨place, hhead, k, hk, below, hbelow, d', hrest, rfl⟩ :=
      mem_derivations_label.mp ((Set.Finite.mem_toFinset _).mp hd)
    exact ⟨⟨⟨k, place⟩, below, d'⟩, (mem_choices hfinite).mpr ⟨hk, hhead, hbelow, hrest⟩, rfl⟩
  · intro c _
    rfl

/-- The inside sum of a label and what follows it, by cuts and rules. -/
theorem inside_label (label : String) (rest : List Symbol) (words : List String) :
    inside rules (.nonterminal label :: rest) words =
      ∑ k ∈ range (words.length + 1), (∑ place : Fin rules.length,
        if (rules.get place).head = label then
          (rules.get place).weight * inside rules (rules.get place).body (words.take k)
        else 0) * inside rules rest (words.drop k) := by
  have hinside : ∀ body ws, inside rules body ws = ∑ d ∈ (hfinite body ws).toFinset, d.weight :=
    fun body ws => finsum_mem_eq_finite_toFinset_sum _ (hfinite body ws)
  rw [inside_eq_sum_choices hfinite, choices, sum_sigma, sum_product]
  refine sum_congr rfl fun k _ => ?_
  rw [sum_mul, sum_filter]
  refine sum_congr rfl fun place _ => ?_
  split
  · rw [sum_product, hinside, hinside rest, mul_assoc, sum_mul_sum, mul_sum]
    refine sum_congr rfl fun a _ => ?_
    rw [mul_sum]
    exact sum_congr rfl fun b _ => mul_assoc _ _ _
  · rw [zero_mul]

theorem insideSeries_eq (label : String) (words : List String) :
    insideSeries rules label words = ∑ place : Fin rules.length,
      if (rules.get place).head = label then
        (rules.get place).weight * inside rules (rules.get place).body words
      else 0 := by
  rw [insideSeries, inside_label hfinite, inside_nil]
  exact congrFun (Series.mul_one fun ws => ∑ place : Fin rules.length,
    if (rules.get place).head = label then
      (rules.get place).weight * inside rules (rules.get place).body ws
    else 0) words

/-- The inside sum of a body is the product of the inside sums of its symbols. -/
theorem inside_eq_bodySeries (body : List Symbol) :
    inside rules body = bodySeries (insideSeries rules) body := by
  induction body with
  | nil => exact inside_nil
  | cons symbol rest ih =>
    rw [bodySeries, ← ih]
    cases symbol with
    | terminal word => exact inside_word word rest
    | nonterminal label =>
      funext words
      rw [inside_label hfinite, symbolSeries, Series.mul]
      simp only [insideSeries_eq hfinite]

/-- Inside sums solve the rules. -/
theorem solves_insideSeries : rules.Solves (insideSeries rules) := by
  intro label words
  rw [insideSeries_eq hfinite, Ruleset.mass, ← Fin.sum_univ_fun_getElem]
  refine sum_congr rfl fun place _ => ?_
  rw [Ruleset.bodyAt, mul_ite, mul_zero, inside_eq_bodySeries hfinite]
  rfl

end Finite

/-- Without empty bodies no label derives the empty list. -/
theorem isProper_insideSeries (hempty : ∀ head body, rules.Has head body → body ≠ []) :
    IsProper (insideSeries rules) := by
  intro label
  have hnone : derivations rules [.nonterminal label] [] = ∅ := by
    rw [Set.eq_empty_iff_forall_notMem]
    intro d hd
    exact absurd (hd.length_le hempty) (by simp)
  rw [insideSeries, inside, hnone, finsum_mem_empty]

end Constituency
