import Constituency.Proofs.Double.Fields

/-!
# Doubles on the number line

All doubles that are numbers stand on a line, the infinities at both ends; counted in units of the
least positive double, all places are integers (`units?`). Doubles are compared by their places
(`le_iff`). A sum stands where the exact sum of the places does if a double has that place. If none
has, it is rounded, but not above any place that the exact sum is not above (`Stored.rounds_add`).
-/
namespace Constituency.Double

open Float.Model Float.Model.UnpackedFloat

/-- Doubles as they are stored. -/
inductive Stored : UnpackedFloat → Prop
  | notANumber : Stored .notANumber
  | infinity {sign : Sign} : Stored (.infinity sign)
  | zero {sign : Sign} : Stored (.zero sign)
  | finite {sign : Sign} {m p : Nat} {h : 0 < m} (hnormal : Normal m p) (hp : p < beyond) :
      Stored (.finite sign m (exponent p) h)

theorem stored_unpack (f : Float.Model) : Stored f.unpack := by
  rw [Float.Model.unpack, unpack_eq_ofFields, ofFields]
  generalize unpackExponent _ = e
  generalize unpackMantissa _ = m
  split
  · split
    · exact .infinity
    · exact .notANumber
  · rename_i hones
    split
    · split
      · exact .zero
      · exact .finite ⟨by omega, .inr rfl⟩ (by decide)
    · rename_i hzero
      have hne : e.toNat ≠ 2 ^ 11 - 1 := fun h => hones (BitVec.eq_of_toNat_eq (h.trans (by simp)))
      exact .finite ⟨by omega, .inl (by omega)⟩ (by rw [beyond]; omega)

/-- What is stored can be read back. -/
theorem Stored.unpack_pack {f : UnpackedFloat} (h : Stored f) :
    (Float.Model.pack f).unpack = f := by
  cases h with
  | notANumber => rfl
  | @infinity sign => cases sign <;> rfl
  | @zero sign => cases sign <;> rfl
  | @finite sign m p h hnormal hp => exact (unpack_pack_finite sign h hnormal).trans (if_pos hp)

/-- A mantissa times a power of two. -/
def magnitude (mantissa power : Nat) : Nat :=
  mantissa * 2 ^ power

/-- Where the infinities stand, counted in the least positive double: where the next double would
be if there were one. -/
def limit : Nat :=
  magnitude (2 ^ 52) beyond

/-- The place of a double on the number line, counted in the least positive double. -/
def units? : UnpackedFloat → Option Int
  | .notANumber => none
  | .infinity sign => some (sign.apply limit)
  | .zero _ => some 0
  | .finite sign m e _ => some (sign.apply (magnitude m (e + 1074).toNat))

@[simp] theorem units?_finite (sign : Sign) (m p : Nat) (h : 0 < m) :
    units? (.finite sign m (exponent p) h) = some (sign.apply (magnitude m p)) := by
  have hpower : (exponent p + 1074).toNat = p := by simp only [exponent]; omega
  rw [units?, hpower]

theorem magnitude_pos {m : Nat} (h : 0 < m) (p : Nat) : 0 < magnitude m p :=
  Nat.mul_pos h (Nat.two_pow_pos p)

@[simp] theorem magnitude_zero (p : Nat) : magnitude 0 p = 0 :=
  Nat.zero_mul _

theorem magnitude_add (m n p : Nat) : magnitude (m + n) p = magnitude m p + magnitude n p :=
  Nat.add_mul ..

theorem magnitude_mul_two_pow (m k p : Nat) : magnitude (m * 2 ^ k) p = magnitude m (k + p) := by
  rw [magnitude, magnitude, Nat.mul_assoc, Nat.pow_add]

theorem limit_eq : limit = magnitude (2 ^ 52) beyond := rfl

theorem normal_limit : Normal (2 ^ 52) beyond :=
  ⟨by decide, .inl (le_refl _)⟩

theorem limit_pos : 0 < limit :=
  magnitude_pos (by decide) beyond

theorem Normal.lt_limit {m p : Nat} (h : Normal m p) (hp : p < beyond) : magnitude m p < limit :=
  h.lt_of_lt normal_limit hp

theorem Normal.limit_le {m p : Nat} (h : Normal m p) (hp : ¬ p < beyond) :
    limit ≤ magnitude m p := by
  rcases (Nat.not_lt.mp hp).lt_or_eq with hlt | rfl
  · exact (normal_limit.lt_of_lt h hlt).le
  · exact Nat.mul_le_mul_right _ (h.full.resolve_right (by decide))

section

variable {m p m' p' : Nat}

theorem Normal.magnitude_le_iff (h : Normal m p) (h' : Normal m' p') :
    magnitude m p ≤ magnitude m' p' ↔
      exponent p < exponent p' ∨ exponent p = exponent p' ∧ m ≤ m' := by
  simp only [magnitude, exponent]
  rcases lt_trichotomy p p' with hp | rfl | hp
  · simp [hp, (h.lt_of_lt h' hp).le]
  · simp [Nat.mul_le_mul_right_iff (Nat.two_pow_pos p)]
  · have hlt := h'.lt_of_lt h hp
    simp [hp.not_gt, hp.ne', hlt]

theorem isLE_then_compare {e e' : Int} :
    ((compare e e').then (compare m m')).isLE = true ↔ e < e' ∨ e = e' ∧ m ≤ m' := by
  rcases lt_trichotomy e e' with h | rfl | h
  · simp [Int.compare_eq_lt.mpr h, h]
  · simp [Nat.isLE_compare]
  · simp [Int.compare_eq_gt.mpr h, h.not_gt, h.ne']

theorem isLE_swap_then_compare {e e' : Int} :
    ((compare e e').then (compare m m')).swap.isLE = true ↔ e' < e ∨ e' = e ∧ m' ≤ m := by
  rw [Ordering.swap_then, Int.compare_swap, Nat.compare_swap, isLE_then_compare]

end

-- both are far too great to be evaluated
attribute [irreducible] magnitude limit

@[simp] theorem units?_notANumber : units? .notANumber = none := rfl

@[simp] theorem units?_infinity (sign : Sign) :
    units? (.infinity sign) = some (sign.apply limit) := rfl

@[simp] theorem units?_zero (sign : Sign) : units? (.zero sign) = some 0 := rfl

/-- Doubles are compared by their places on the number line. -/
theorem le_iff {a b : UnpackedFloat} (ha : Stored a) (hb : Stored b) :
    a.le b = true ↔ ∃ x y, units? a = some x ∧ units? b = some y ∧ x ≤ y := by
  have hlimit := limit_pos
  have hbounds : ∀ {m p}, 0 < m → Normal m p → p < beyond →
      0 < magnitude m p ∧ magnitude m p < limit :=
    fun h hnormal hp => ⟨magnitude_pos h _, hnormal.lt_limit hp⟩
  cases ha with
  | notANumber => cases hb <;> simp [UnpackedFloat.le, UnpackedFloat.compare]
  | @infinity s =>
    cases hb with
    | notANumber => cases s <;> simp [UnpackedFloat.le, UnpackedFloat.compare]
    | @infinity s' =>
      have hsigns : (compare s s').isLE = true ↔ s.apply limit ≤ s'.apply limit := by
        cases s <;> cases s' <;> simp [compare, Sign.apply]
        omega
      simpa [UnpackedFloat.le, UnpackedFloat.compare] using hsigns
    | @zero s' =>
      cases s <;> simp [UnpackedFloat.le, UnpackedFloat.compare, Sign.apply]
      omega
    | @finite s' m p h hnormal hp =>
      have := hbounds h hnormal hp
      cases s <;> cases s' <;> simp [UnpackedFloat.le, UnpackedFloat.compare, Sign.apply] <;> omega
  | @zero s =>
    cases hb with
    | notANumber => simp [UnpackedFloat.le, UnpackedFloat.compare]
    | @infinity s' =>
      cases s' <;> simp [UnpackedFloat.le, UnpackedFloat.compare, Sign.apply]
      omega
    | @zero s' => simp [UnpackedFloat.le, UnpackedFloat.compare]
    | @finite s' m p h hnormal hp =>
      have := hbounds h hnormal hp
      cases s' <;> simp [UnpackedFloat.le, UnpackedFloat.compare, Sign.apply]
      omega
  | @finite s m p h hnormal hp =>
    have := hbounds h hnormal hp
    cases hb with
    | notANumber => cases s <;> simp [UnpackedFloat.le, UnpackedFloat.compare]
    | @infinity s' =>
      cases s <;> cases s' <;> simp [UnpackedFloat.le, UnpackedFloat.compare, Sign.apply] <;> omega
    | @zero s' =>
      cases s <;> simp [UnpackedFloat.le, UnpackedFloat.compare, Sign.apply]
      omega
    | @finite s' m' p' h' hnormal' hp' =>
      have := hbounds h' hnormal' hp'
      have hle := hnormal.magnitude_le_iff hnormal'
      have hge := hnormal'.magnitude_le_iff hnormal
      cases s <;> cases s'
      case negative.negative =>
        simp only [UnpackedFloat.le, UnpackedFloat.compare, Option.any_some, isLE_swap_then_compare]
        simp [Sign.apply, hge]
      case positive.positive =>
        simp only [UnpackedFloat.le, UnpackedFloat.compare, Option.any_some, isLE_then_compare]
        simp [Sign.apply, hle]
      all_goals simp [UnpackedFloat.le, UnpackedFloat.compare, Sign.apply] <;> omega

/-! ### Sums -/

/-- The double that a rounded number is stored as stands where the number does, or at the limit. -/
theorem units?_pack (sign : Sign) {m p : Nat} (h : 0 < m) (hnormal : Normal m p) :
    units? (Float.Model.pack (.finite sign m (exponent p) h)).unpack =
      some (sign.apply (min (magnitude m p) limit : Nat)) := by
  rw [Float.Model.unpack, Float.Model.pack]
  change units? (UnpackedFloat.unpack Format.binary64 (UnpackedFloat.pack Format.binary64 _)) = _
  rw [unpack_pack_finite sign h hnormal]
  split
  · rename_i hp
    rw [units?_finite, Nat.min_eq_left (hnormal.lt_limit hp).le]
  · rename_i hp
    rw [units?_infinity, Nat.min_eq_right (hnormal.limit_le hp)]

/-- The places of doubles on the number line. -/
def IsPlace (t : Int) : Prop :=
  ∃ sign m p, Normal m p ∧ magnitude m p ≤ limit ∧ t = Sign.apply sign (magnitude m p : Nat)

theorem IsPlace.neg_limit_le {t : Int} (h : IsPlace t) : -limit ≤ t := by
  obtain ⟨sign, m, p, -, hle, rfl⟩ := h
  cases sign <;> simp only [Sign.apply] <;> omega

/-- What is stored of a number is not above any place that an exact value is not above. -/
def Rounds (f : UnpackedFloat) (x : Int) : Prop :=
  ∃ c, units? (Float.Model.pack f).unpack = some c ∧ ∀ t, IsPlace t → x ≤ t → c ≤ t

theorem Stored.rounds {f : UnpackedFloat} (h : Stored f) {x z : Int} (hz : units? f = some z)
    (hle : ∀ t, IsPlace t → x ≤ t → z ≤ t) : Rounds f x :=
  ⟨z, by rw [h.unpack_pack, hz], hle⟩

theorem rounds_round (sign : Sign) {mantissa : Nat} (hm : mantissa ≠ 0) (power : Nat) :
    Rounds (UnpackedFloat.round Format.binary64 sign mantissa (exponent power))
      (sign.apply (mantissa * 2 ^ power : Nat)) := by
  obtain ⟨m, p, h, hround, hnormal, hbetween⟩ := round_eq sign hm power
  rw [hround]
  refine ⟨_, units?_pack sign h hnormal, fun t ht hle => ?_⟩
  have hlow := ht.neg_limit_le
  obtain ⟨s, m', p', hnormal', hlimit, rfl⟩ := ht
  have hm' := hbetween m' p' hnormal'
  have hpos : 0 < mantissa * 2 ^ power := Nat.mul_pos (Nat.pos_of_ne_zero hm) (Nat.two_pow_pos _)
  simp only [magnitude] at *
  cases sign <;> cases s <;> simp only [Sign.apply] at * <;> omega

theorem rounds_normalize (mantissa : Int) (power : Nat) (sign : Sign) :
    Rounds (UnpackedFloat.normalize Format.binary64 mantissa (exponent power) sign)
      (mantissa * (2 ^ power : Nat)) := by
  rcases lt_trichotomy mantissa 0 with hm | rfl | hm
  · obtain ⟨n, rfl⟩ : ∃ n : Nat, mantissa = -n := ⟨(-mantissa).toNat, by omega⟩
    simp only [UnpackedFloat.normalize, Int.compare_eq_lt.mpr hm, Int.neg_neg, Int.toNat_natCast]
    simpa [Sign.apply] using rounds_round .negative (by omega : n ≠ 0) power
  · exact Stored.zero.rounds rfl fun t _ hle => by simpa using hle
  · obtain ⟨n, rfl⟩ : ∃ n : Nat, mantissa = n := ⟨mantissa.toNat, by omega⟩
    simp only [UnpackedFloat.normalize, Int.compare_eq_gt.mpr hm, Int.toNat_natCast]
    simpa [Sign.apply] using rounds_round .positive (by omega : n ≠ 0) power

/-- A double stands where its parts say, whatever the power that its mantissa is written for. -/
theorem apply_decreaseExponent (sign : Sign) (m : Nat) {least power : Nat} (h : least ≤ power) :
    sign.apply (decreaseExponent m (exponent power) (exponent least)).1 * (2 ^ least : Nat) =
      sign.apply (magnitude m power : Nat) := by
  have hmul : m * 2 ^ (power - least) * 2 ^ least = magnitude m power := by
    rw [magnitude, Nat.mul_assoc, ← Nat.pow_add, Nat.sub_add_cancel h]
  rw [decreaseExponent_eq, ← hmul]
  cases sign <;> simp only [Sign.apply, Nat.cast_mul, Int.neg_mul]

theorem exponent_min (p p' : Nat) : min (exponent p) (exponent p') = exponent (min p p') := by
  simp only [exponent]
  omega

theorem rounds_add_finite (sign sign' : Sign) {m p m' p' : Nat} (h : 0 < m) (h' : 0 < m') :
    Rounds (UnpackedFloat.add Format.binary64 (.finite sign m (exponent p) h)
        (.finite sign' m' (exponent p') h'))
      (sign.apply (magnitude m p : Nat) + sign'.apply (magnitude m' p' : Nat)) := by
  have hfirst := apply_decreaseExponent sign m (Nat.min_le_left p p')
  have hsecond := apply_decreaseExponent sign' m' (Nat.min_le_right p p')
  simp only [UnpackedFloat.add, exponent_min]
  rw [← hfirst, ← hsecond, ← Int.add_mul]
  exact rounds_normalize _ _ _

/-- The sum of numbers below the positive infinity rounds the sum of their places. -/
theorem Stored.rounds_add {a b : UnpackedFloat} (ha : Stored a) (hb : Stored b) {x y : Int}
    (hx : units? a = some x) (hy : units? b = some y) (hxlimit : x < limit)
    (hylimit : y < limit) : Rounds (UnpackedFloat.add Format.binary64 a b) (x + y) := by
  -- only the sum of two finite doubles is rounded
  cases ha with
  | notANumber => cases hx
  | @infinity s =>
    cases hx
    cases s with
    | positive => exact absurd hxlimit (lt_irrefl _)
    | negative =>
      have hadd : UnpackedFloat.add Format.binary64 (.infinity .negative) b =
          .infinity .negative := by
        cases hb with
        | notANumber => cases hy
        | @infinity s' =>
          cases hy
          cases s' with
          | positive => exact absurd hylimit (lt_irrefl _)
          | negative => rfl
        | zero => rfl
        | finite => rfl
      rw [hadd]
      exact Stored.infinity.rounds rfl fun t ht _ => ht.neg_limit_le
  | @zero s =>
    cases hx
    cases hb with
    | notANumber => cases hy
    | @infinity s' =>
      exact Stored.rounds (f := .infinity s') .infinity hy fun t _ hle => by omega
    | @zero s' =>
      cases hy
      have hadd : UnpackedFloat.add Format.binary64 (.zero s) (.zero s') =
          .zero (if s == s' then s else .positive) := by
        simp only [UnpackedFloat.add]
        split <;> rfl
      rw [hadd]
      exact Stored.zero.rounds rfl fun t _ hle => hle
    | @finite s' m' p' h' hnormal' hp' =>
      exact Stored.rounds (f := .finite s' m' (exponent p') h') (.finite hnormal' hp') hy
        fun t _ hle => by omega
  | @finite s m p h hnormal hp =>
    cases hb with
    | notANumber => cases hy
    | @infinity s' =>
      cases hy
      cases s' with
      | positive => exact absurd hylimit (lt_irrefl _)
      | negative =>
        exact Stored.rounds (f := .infinity .negative) .infinity rfl
          fun t ht _ => ht.neg_limit_le
    | @zero s' =>
      cases hy
      exact Stored.rounds (f := .finite s m (exponent p) h) (.finite hnormal hp) hx
        fun t _ hle => by omega
    | @finite s' m' p' h' hnormal' hp' =>
      rw [units?_finite, Option.some.injEq] at hx hy
      rw [← hx, ← hy]
      exact rounds_add_finite s s' h h'

end Constituency.Double
