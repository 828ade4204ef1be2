import Constituency.Decimal.Numeral
import Constituency.Decimal.Shortest

/-!
# Decimals that are taken whole

The shortest decimal of a number without a sign consists of digits, with a point between them or
without one. From the front of a text such a decimal is taken whole, whatever follows it, as long as
what follows cannot go on with a number.
-/
namespace Constituency.Decimal

/-- Characters of a class are taken up to the first one that is not of the class. -/
theorem span_append {p : Char → Bool} {taken rest : List Char} (htaken : ∀ c ∈ taken, p c = true)
    (hrest : ∀ c ∈ rest.head?, p c = false) :
    (taken ++ rest).takeWhile p = taken ∧ (taken ++ rest).dropWhile p = rest := by
  rw [List.takeWhile_append_of_pos htaken, List.dropWhile_append_of_pos htaken]
  cases rest with
  | nil => simp
  | cons c rest =>
    have hc : p c = false := hrest c rfl
    simp [hc]

/-- Digits, with a point between them or without one. -/
inductive IsPlain : List Char → Prop where
  | whole {ds : List Char} (hne : ds ≠ []) (hds : ∀ c ∈ ds, c.isDigit = true) : IsPlain ds
  | pointed {whole fraction : List Char} (hne : whole ≠ [])
      (hwhole : ∀ c ∈ whole, c.isDigit = true) (hne' : fraction ≠ [])
      (hfraction : ∀ c ∈ fraction, c.isDigit = true) : IsPlain (whole ++ '.' :: fraction)

/-- Whether a character can stand behind the digits of a number and belong to it. -/
def continuesNumber (c : Char) : Bool :=
  c.isDigit || c = '.' || c = 'e' || c = 'E'

/-- Whether a text does not go on with a number. -/
def EndsNumber (rest : List Char) : Prop :=
  ∀ c ∈ rest.head?, continuesNumber c = false

theorem endsNumber_nil : EndsNumber [] := by
  simp [EndsNumber]

theorem endsNumber_cons {c : Char} (h : continuesNumber c = false) (rest : List Char) :
    EndsNumber (c :: rest) := by
  simpa [EndsNumber] using h

variable {whole fraction rest : List Char}

theorem EndsNumber.isDigit_eq_false (h : EndsNumber rest) :
    ∀ c ∈ rest.head?, c.isDigit = false := by
  intro c hc
  have hcont := h c hc
  simp only [continuesNumber, Bool.or_eq_false_iff] at hcont
  exact hcont.1.1.1

theorem readExponent_of_endsNumber (h : EndsNumber rest) : readExponent rest = (0, rest) := by
  cases rest with
  | nil => rfl
  | cons c rest =>
    have hc : continuesNumber c = false := h c rfl
    have hne : ¬ (c = 'e' ∨ c = 'E') := by
      rintro (rfl | rfl) <;> simp [continuesNumber] at hc
    simp [readExponent, hne]

theorem fractionDigits_of_head? (h : ∀ c ∈ rest.head?, c ≠ '.') : fractionDigits rest = [] := by
  unfold fractionDigits
  split
  · exact absurd rfl (h '.' rfl)
  · rfl

theorem EndsNumber.ne_point (h : EndsNumber rest) : ∀ c ∈ rest.head?, c ≠ '.' := by
  rintro c hc rfl
  have hcont := h '.' hc
  simp [continuesNumber] at hcont

/-- Digits are taken with the exponent behind them. -/
theorem read?_whole {exponent : Int} {tail : List Char} (hne : whole ≠ [])
    (hwhole : ∀ c ∈ whole, c.isDigit = true) (hdigit : ∀ c ∈ tail.head?, c.isDigit = false)
    (hpoint : ∀ c ∈ tail.head?, c ≠ '.') (hexponent : readExponent tail = (exponent, rest)) :
    Numeral.read? (whole ++ tail) = some (.ofDigits whole [] exponent, rest) := by
  obtain ⟨htake, hdrop⟩ := span_append hwhole hdigit
  simp [Numeral.read?, htake, hdrop, fractionDigits_of_head? hpoint, hne, Numeral.withExponent,
    hexponent]

/-- Digits on both sides of a point are taken with the exponent behind them. -/
theorem read?_pointed {exponent : Int} {tail : List Char}
    (hwhole : ∀ c ∈ whole, c.isDigit = true) (hne : fraction ≠ [])
    (hfraction : ∀ c ∈ fraction, c.isDigit = true) (hdigit : ∀ c ∈ tail.head?, c.isDigit = false)
    (hexponent : readExponent tail = (exponent, rest)) :
    Numeral.read? (whole ++ '.' :: (fraction ++ tail)) =
      some (.ofDigits whole fraction exponent, rest) := by
  have hpoint : ∀ c ∈ ('.' :: (fraction ++ tail)).head?, c.isDigit = false := by
    intro c hc
    obtain rfl : '.' = c := by simpa using hc
    decide
  obtain ⟨htake, hdrop⟩ := span_append hwhole hpoint
  obtain ⟨hbehind, -⟩ := span_append hfraction hdigit
  simp [Numeral.read?, htake, hdrop, fractionDigits, hbehind, hne, Numeral.withExponent, hexponent]

/-- A plain decimal is taken whole, and as the same numeral whatever follows. -/
theorem IsPlain.read? {cs : List Char} (h : IsPlain cs) :
    ∃ n, Numeral.read? cs = some (n, []) ∧
      ∀ rest, EndsNumber rest → Numeral.read? (cs ++ rest) = some (n, rest) := by
  have hread : ∃ n, ∀ rest, EndsNumber rest → Numeral.read? (cs ++ rest) = some (n, rest) := by
    cases h with
    | whole hne hds =>
      exact ⟨_, fun rest hrest => read?_whole hne hds hrest.isDigit_eq_false hrest.ne_point
        (readExponent_of_endsNumber hrest)⟩
    | @pointed whole fraction hne hwhole hne' hfraction =>
      refine ⟨.ofDigits whole fraction 0, fun rest hrest => ?_⟩
      rw [List.append_assoc, List.cons_append]
      exact read?_pointed hwhole hne' hfraction hrest.isDigit_eq_false
        (readExponent_of_endsNumber hrest)
  obtain ⟨n, hn⟩ := hread
  exact ⟨n, by simpa using hn [] endsNumber_nil, hn⟩

/-- A plain decimal begins with a digit. -/
theorem IsPlain.exists_cons {cs : List Char} (h : IsPlain cs) :
    ∃ d ds, cs = d :: ds ∧ d.isDigit = true := by
  cases h with
  | whole hne hds =>
    obtain ⟨d, ds, rfl⟩ := List.exists_cons_of_ne_nil hne
    exact ⟨d, ds, rfl, hds d List.mem_cons_self⟩
  | pointed hne hwhole =>
    obtain ⟨d, ds, rfl⟩ := List.exists_cons_of_ne_nil hne
    exact ⟨d, _, rfl, hwhole d List.mem_cons_self⟩

/-! ### What is printed -/

theorem isDigit_of_mem_digits {n : Nat} {c : Char} (h : c ∈ digits n) : c.isDigit = true :=
  Nat.isDigit_of_mem_toDigits (by decide) (by decide) h

theorem isDigit_of_mem_paddedDigits {width n : Nat} {c : Char} (h : c ∈ paddedDigits width n) :
    c.isDigit = true := by
  rcases List.mem_append.mp h with h | h
  · rw [List.eq_of_mem_replicate h]
    decide
  · exact isDigit_of_mem_digits h

theorem le_length_paddedDigits (width n : Nat) : width ≤ (paddedDigits width n).length := by
  simp only [paddedDigits, List.length_append, List.length_replicate]
  omega

/-- A decimal without an exponent is plain. -/
theorem isPlain_positional (count : Nat) (place : Int) : IsPlain (positional count place) := by
  unfold positional
  split
  · refine .whole (by simp [digits, Nat.toDigits_ne_nil]) fun c hc => ?_
    rcases List.mem_append.mp hc with hc | hc
    · exact isDigit_of_mem_digits hc
    · rw [List.eq_of_mem_replicate hc]
      decide
  · rename_i hplace
    have hlength := le_length_paddedDigits ((-place).toNat + 1) count
    have hplaces : 0 < (-place).toNat := by omega
    have hdigits : ∀ c ∈ paddedDigits ((-place).toNat + 1) count, c.isDigit = true :=
      fun _ => isDigit_of_mem_paddedDigits
    refine .pointed ?_ (fun c hc => hdigits c (List.mem_of_mem_take hc)) ?_
      (fun c hc => hdigits c (List.mem_of_mem_drop hc))
    · exact List.ne_nil_of_length_pos (by rw [List.length_take]; omega)
    · exact List.ne_nil_of_length_pos (by rw [List.length_drop]; omega)

/-- The shortest decimal of a finite number without a sign is plain. -/
theorem isPlain_shortestText (mantissa : Nat) (exponent : Int) :
    IsPlain (Binary.finite false mantissa exponent).shortestText := by
  simp only [Binary.shortestText, sign, Bool.false_eq_true, if_false, List.nil_append]
  split
  · exact .whole (List.cons_ne_nil _ _) (by simp)
  · exact isPlain_positional _ _

end Constituency.Decimal
