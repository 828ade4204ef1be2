import Mathlib

/-!
# How a double is rounded

A finite double is a mantissa times a power of two. Of the ways to write it, rounding leaves the one
whose mantissa has 53 bits, or the one with the least power if there is none (`Normal`). Magnitudes
are counted in units of the least positive double, which makes them natural numbers. What matters of
rounding is that it never passes a double: a magnitude below one is not rounded above it, and one
above it not below.
-/
namespace Constituency.Double

open Float.Model Float.Model.UnpackedFloat

/-- Mantissas and powers as doubles have them; the power counts from the least one. -/
structure Normal (mantissa power : Nat) : Prop where
  lt : mantissa < 2 ^ 53
  full : 2 ^ 52 ≤ mantissa ∨ power = 0

/-- The powers of a double as the format counts them. -/
def exponent (power : Nat) : Int :=
  power - 1074

/-! ### Shifting out bits -/

theorem mantissa_shiftRight (em : ExtendedMantissa) (k : Nat) :
    (em >>> k).mantissa = em.mantissa / 2 ^ k := by
  change (k.repeat ExtendedMantissa.shiftRightOne em).mantissa = _
  induction k with
  | zero => simp [Nat.repeat]
  | succ k ih =>
    rw [Nat.repeat, ExtendedMantissa.shiftRightOne, ih, Nat.div_div_eq_div_mul, Nat.pow_succ]

/-- Nothing is lost with bits that are all zero. -/
theorem shiftRight_of_dvd {mantissa k : Nat} (h : 2 ^ k ∣ mantissa) :
    (ExtendedMantissa.mk mantissa false false) >>> k = ⟨mantissa / 2 ^ k, false, false⟩ := by
  change k.repeat ExtendedMantissa.shiftRightOne _ = _
  induction k with
  | zero => simp [Nat.repeat]
  | succ k ih =>
    obtain ⟨c, rfl⟩ := h
    have hdiv : 2 ^ (k + 1) * c / 2 ^ k = 2 * c := by
      rw [Nat.pow_succ, Nat.mul_assoc, Nat.mul_div_cancel_left _ (Nat.two_pow_pos k)]
    rw [Nat.repeat, ih ⟨2 * c, by rw [Nat.pow_succ, Nat.mul_assoc]⟩, hdiv,
      Nat.mul_div_cancel_left _ (Nat.two_pow_pos _)]
    simp [ExtendedMantissa.shiftRightOne]

/-- A mantissa that is shifted by some bits and then rounded. -/
def shiftRounded (mantissa k : Nat) : Nat :=
  ((ExtendedMantissa.mk mantissa false false) >>> k).roundedMantissa

/-- Rounding leaves what is left of the mantissa, or makes it the next number. -/
theorem shiftRounded_bounds (mantissa k : Nat) :
    mantissa / 2 ^ k ≤ shiftRounded mantissa k ∧
      shiftRounded mantissa k ≤ mantissa / 2 ^ k + 1 := by
  have hmantissa := mantissa_shiftRight ⟨mantissa, false, false⟩ k
  rw [shiftRounded, ExtendedMantissa.roundedMantissa, ← hmantissa]
  generalize (ExtendedMantissa.mk mantissa false false) >>> k = em
  fun_cases ExtendedMantissa.accuracy em <;> simp only [Accuracy.roundToNearestEven] <;> omega

theorem le_shiftRounded {mantissa k bound : Nat} (h : bound * 2 ^ k ≤ mantissa) :
    bound ≤ shiftRounded mantissa k :=
  Nat.le_trans ((Nat.le_div_iff_mul_le (Nat.two_pow_pos k)).mpr h)
    (shiftRounded_bounds mantissa k).1

/-- A mantissa that is shifted and rounded does not pass a whole number. -/
theorem shiftRounded_le {mantissa k bound : Nat} (h : mantissa ≤ bound * 2 ^ k) :
    shiftRounded mantissa k ≤ bound := by
  by_cases hdvd : 2 ^ k ∣ mantissa
  · rw [shiftRounded, shiftRight_of_dvd hdvd]
    exact Nat.div_le_of_le_mul (by rwa [Nat.mul_comm] at h)
  · have hne : mantissa ≠ bound * 2 ^ k := fun heq => hdvd (heq ▸ Nat.dvd_mul_left _ _)
    have hlt : mantissa / 2 ^ k < bound :=
      (Nat.div_lt_iff_lt_mul (Nat.two_pow_pos k)).mpr (lt_of_le_of_ne h hne)
    exact Nat.le_trans (shiftRounded_bounds mantissa k).2 hlt

/-! ### The power of a rounded number -/

/-- The power with which a mantissa times a power of two is rounded. -/
def place (mantissa power : Nat) : Nat :=
  mantissa.log2 + power - 52

theorem targetExponent_eq (mantissa power : Nat) :
    Format.binary64.targetExponent (totalExponent mantissa (exponent power)) =
      exponent (place mantissa power) := by
  simp only [Format.targetExponent, totalExponent, Format.mantissaBits, Format.minExponent,
    exponent, place]
  omega

/-- A normal double has at least the power with which smaller numbers are rounded. -/
theorem Normal.place_le {m p : Nat} (h : Normal m p) {mantissa power : Nat} (hm : mantissa ≠ 0)
    (hle : mantissa * 2 ^ power ≤ m * 2 ^ p) : place mantissa power ≤ p := by
  have hlt : 2 ^ (mantissa.log2 + power) < 2 ^ (53 + p) :=
    calc 2 ^ (mantissa.log2 + power) = 2 ^ mantissa.log2 * 2 ^ power := Nat.pow_add ..
      _ ≤ mantissa * 2 ^ power := Nat.mul_le_mul_right _ (Nat.log2_self_le hm)
      _ ≤ m * 2 ^ p := hle
      _ < 2 ^ 53 * 2 ^ p := Nat.mul_lt_mul_of_pos_right h.lt (Nat.two_pow_pos p)
      _ = 2 ^ (53 + p) := (Nat.pow_add ..).symm
  have := (Nat.pow_lt_pow_iff_right (by decide)).mp hlt
  rw [place]
  omega

/-- Normal doubles are in order if their powers are. -/
theorem Normal.lt_of_lt {m p m' p' : Nat} (h : Normal m p) (h' : Normal m' p') (hp : p < p') :
    m * 2 ^ p < m' * 2 ^ p' := by
  have hfull : 2 ^ 52 ≤ m' := h'.full.resolve_right (by omega)
  calc m * 2 ^ p < 2 ^ 53 * 2 ^ p := Nat.mul_lt_mul_of_pos_right h.lt (Nat.two_pow_pos p)
    _ = 2 ^ 52 * 2 ^ (p + 1) := by rw [Nat.pow_succ 2 p]; omega
    _ ≤ m' * 2 ^ p' := Nat.mul_le_mul hfull (Nat.pow_le_pow_right (by decide) hp)

/-! ### Rounding -/

theorem shiftToTargetExponent_eq (mantissa power : Nat) :
    shiftToTargetExponent Format.binary64 mantissa (exponent power) .exact =
      ((ExtendedMantissa.mk mantissa false false) >>> (place mantissa power - power),
        exponent (max power (place mantissa power))) := by
  have hshift : (exponent (place mantissa power) - exponent power).toNat =
      place mantissa power - power := by simp only [exponent]; omega
  simp only [shiftToTargetExponent, targetExponent_eq, shiftToExponent, hshift,
    ExtendedMantissa.ofMantissaAndAccuracy, Prod.mk.injEq, true_and]
  simp only [exponent]
  omega

section

variable {mantissa power : Nat}

/-- The mantissa that rounding leaves at the power of the rounded number. -/
def roundedAt (mantissa power : Nat) : Nat :=
  shiftRounded mantissa (place mantissa power - power)

theorem roundedAt_le : roundedAt mantissa power ≤ 2 ^ 53 := by
  refine shiftRounded_le (Nat.le_of_lt ?_)
  rw [← Nat.pow_add]
  refine Nat.lt_of_lt_of_le Nat.lt_log2_self (Nat.pow_le_pow_right (by decide) ?_)
  rw [place]
  omega

theorem roundedAt_full (hm : mantissa ≠ 0) (hpower : power ≤ place mantissa power) :
    2 ^ 52 ≤ roundedAt mantissa power ∨ place mantissa power = 0 := by
  by_cases hplace : place mantissa power = 0
  · exact .inr hplace
  · refine .inl (le_shiftRounded ?_)
    rw [← Nat.pow_add]
    refine Nat.le_trans (Nat.pow_le_pow_right (by decide) ?_) (Nat.log2_self_le hm)
    rw [place] at hplace hpower ⊢
    omega

theorem roundedAt_pos (hm : mantissa ≠ 0) (hpower : power ≤ place mantissa power) :
    0 < roundedAt mantissa power := by
  rcases roundedAt_full hm hpower with hfull | hplace
  · exact Nat.lt_of_lt_of_le (by decide) hfull
  · refine le_shiftRounded ?_
    rw [hplace, Nat.zero_sub, Nat.pow_zero]
    exact Nat.pos_of_ne_zero hm

/-- A rounded mantissa that is one bit too long is a power of two, and loses nothing with its last
bit. -/
theorem roundWithAccuracy_eq (sign : Sign) (hm : mantissa ≠ 0)
    (hpower : power ≤ place mantissa power) : ∃ m p, ∃ h : 0 < m,
      roundWithAccuracy Format.binary64 sign mantissa (exponent power) .exact =
        .finite sign m (exponent p) h ∧
      Normal m p ∧ m * 2 ^ p = roundedAt mantissa power * 2 ^ place mantissa power := by
  have hpos := roundedAt_pos hm hpower
  have hround : roundWithAccuracy Format.binary64 sign mantissa (exponent power) .exact =
      (let r := roundedAt mantissa power
      let p := place mantissa power
      if h : r / 2 ^ (place r p - p) = 0 then .zero sign
      else .finite sign (r / 2 ^ (place r p - p)) (exponent (max p (place r p)))
        (Nat.pos_of_ne_zero h)) := by
    simp only [roundWithAccuracy, shiftToTargetExponent_eq, Nat.max_eq_right hpower,
      mantissa_shiftRight]
    rfl
  rw [hround]
  generalize hr : roundedAt mantissa power = r at *
  generalize hp : place mantissa power = p at *
  have hfull : 2 ^ 52 ≤ r ∨ p = 0 := hr ▸ hp ▸ roundedAt_full hm (hp ▸ hpower)
  rcases (hr ▸ roundedAt_le : r ≤ 2 ^ 53).lt_or_eq with hlt | rfl
  · have hplace : place r p ≤ p := by
      have := (Nat.log2_lt hpos.ne').mpr hlt
      rw [place]
      omega
    refine ⟨r, p, hpos, ?_, ⟨hlt, hfull⟩, rfl⟩
    simp [Nat.sub_eq_zero_of_le hplace, Nat.max_eq_left hplace, hpos.ne']
  · have hplace : place (2 ^ 53) p = p + 1 := by
      rw [place, Nat.log2_two_pow]
      omega
    refine ⟨2 ^ 52, p + 1, by decide, ?_, ⟨by decide, .inl (le_refl _)⟩, ?_⟩
    · simp only [hplace, Nat.add_sub_cancel_left, Nat.max_eq_right (Nat.le_succ p)]
      rfl
    · rw [Nat.pow_succ]
      omega

theorem decreaseExponent_eq (mantissa power least : Nat) :
    decreaseExponent mantissa (exponent power) (exponent least) =
      (mantissa * 2 ^ (power - least), exponent (min power least)) := by
  have hshift : (exponent power - exponent least).toNat = power - least := by
    simp only [exponent]
    omega
  simp only [decreaseExponent, hshift, Nat.shiftLeft_eq, Prod.mk.injEq, true_and]
  simp only [exponent]
  omega

theorem log2_mul_two_pow (hm : mantissa ≠ 0) (k : Nat) :
    (mantissa * 2 ^ k).log2 = mantissa.log2 + k := by
  have hpos := Nat.two_pow_pos k
  rw [Nat.log2_eq_iff (Nat.mul_ne_zero hm hpos.ne'), Nat.pow_add, Nat.add_right_comm, Nat.pow_add]
  exact ⟨Nat.mul_le_mul_right _ (Nat.log2_self_le hm),
    Nat.mul_lt_mul_of_pos_right Nat.lt_log2_self hpos⟩

/-- What is rounded at its own place passes no double. -/
theorem roundedAt_between (hm : mantissa ≠ 0) (hpower : power ≤ place mantissa power) {m p : Nat}
    (h : Normal m p) :
    (mantissa * 2 ^ power ≤ m * 2 ^ p →
      roundedAt mantissa power * 2 ^ place mantissa power ≤ m * 2 ^ p) ∧
    (m * 2 ^ p ≤ mantissa * 2 ^ power →
      m * 2 ^ p ≤ roundedAt mantissa power * 2 ^ place mantissa power) := by
  obtain ⟨k, hk⟩ := Nat.exists_eq_add_of_le hpower
  have hdiff : place mantissa power - power = k := by omega
  -- a double of a higher power is a whole number of the places to which the mantissa is rounded
  have hwhole : place mantissa power ≤ p →
      m * 2 ^ p = m * 2 ^ (p - place mantissa power) * 2 ^ place mantissa power ∧
      m * 2 ^ p = m * 2 ^ (p - place mantissa power) * 2 ^ k * 2 ^ power := by
    intro hle
    constructor
    · rw [Nat.mul_assoc, ← Nat.pow_add, Nat.sub_add_cancel hle]
    · rw [Nat.mul_assoc, Nat.mul_assoc, ← Nat.pow_add, ← Nat.pow_add]
      congr 2
      omega
  constructor
  · intro hle
    obtain ⟨hplace, hpow⟩ := hwhole (h.place_le hm hle)
    rw [hpow] at hle
    rw [hplace]
    refine Nat.mul_le_mul_right _ (shiftRounded_le ?_)
    rw [hdiff]
    exact Nat.le_of_mul_le_mul_right hle (Nat.two_pow_pos power)
  · intro hle
    by_cases hp : place mantissa power ≤ p
    · obtain ⟨hplace, hpow⟩ := hwhole hp
      rw [hpow] at hle
      rw [hplace]
      refine Nat.mul_le_mul_right _ (le_shiftRounded ?_)
      rw [hdiff]
      exact Nat.le_of_mul_le_mul_right hle (Nat.two_pow_pos power)
    · have hfull := (roundedAt_full hm hpower).resolve_right (by omega)
      calc m * 2 ^ p ≤ 2 ^ 53 * 2 ^ p := Nat.mul_le_mul_right _ h.lt.le
        _ = 2 ^ 52 * 2 ^ (p + 1) := by rw [Nat.pow_succ 2 p]; omega
        _ ≤ roundedAt mantissa power * 2 ^ place mantissa power :=
          Nat.mul_le_mul hfull (Nat.pow_le_pow_right (by decide) (by omega))

/-- Rounding passes no double. -/
theorem round_eq (sign : Sign) (hm : mantissa ≠ 0) (power : Nat) : ∃ m p, ∃ h : 0 < m,
    UnpackedFloat.round Format.binary64 sign mantissa (exponent power) =
      .finite sign m (exponent p) h ∧
    Normal m p ∧ ∀ m' p', Normal m' p' →
      (mantissa * 2 ^ power ≤ m' * 2 ^ p' → m * 2 ^ p ≤ m' * 2 ^ p') ∧
      (m' * 2 ^ p' ≤ mantissa * 2 ^ power → m' * 2 ^ p' ≤ m * 2 ^ p) := by
  -- a mantissa of too few bits is made longer first, which does not change the place
  let longer := mantissa * 2 ^ (power - place mantissa power)
  let least := min power (place mantissa power)
  have hlonger : longer ≠ 0 := Nat.mul_ne_zero hm (Nat.two_pow_pos _).ne'
  have hplace : place longer least = place mantissa power := by
    simp only [longer, least, place, log2_mul_two_pow hm]
    omega
  have hsame : longer * 2 ^ least = mantissa * 2 ^ power := by
    rw [Nat.mul_assoc, ← Nat.pow_add]
    congr 2
    omega
  have hpower : least ≤ place longer least := hplace ▸ Nat.min_le_right ..
  obtain ⟨m, p, hpos, hround, hnormal, hvalue⟩ := roundWithAccuracy_eq sign hlonger hpower
  refine ⟨m, p, hpos, ?_, hnormal, fun m' p' h' => ?_⟩
  · simp only [UnpackedFloat.round, targetExponent_eq, decreaseExponent_eq]
    exact hround
  · rw [hvalue, ← hsame]
    exact roundedAt_between hlonger hpower h'

end

end Constituency.Double
