import Constituency.Proofs.Double.Bounds

/-!
# The total order of doubles

The bits of a double, read as a number and reflected if the double is negative, order all doubles
(`totalPlace`). Among numbers this is the order of their places on the number line, but for the two
zeros: the negative one comes first. A sum is no negative zero if its first term is none.
-/
namespace Constituency.Double

open Float.Model Float.Model.UnpackedFloat

/-- The place of a double in the total order. -/
def totalPlace (x : Float) : Int :=
  let bits := x.toBits.toNat
  if bits < 2 ^ 63 then bits else 2 ^ 63 - 1 - bits

/-- Whether a double is the zero with a negative sign. -/
def IsNegativeZero (x : Float) : Prop :=
  x.toModel.unpack = .zero .negative

/-! ### The order of the fields -/

/-- The magnitude of a number by its bits without the sign. -/
def magnitudeOfBits (bits : Nat) : Nat :=
  let e := bits / 2 ^ 52
  let m := bits % 2 ^ 52
  magnitude (if e = 0 then m else 2 ^ 52 + m) (e - 1)

theorem normal_ofBits (bits : Nat) :
    Normal (if bits / 2 ^ 52 = 0 then bits % 2 ^ 52 else 2 ^ 52 + bits % 2 ^ 52)
      (bits / 2 ^ 52 - 1) := by
  constructor
  · split <;> omega
  · split
    · exact .inr (by omega)
    · exact .inl (Nat.le_add_right _ _)

theorem magnitudeOfBits_le_iff (bits bits' : Nat) :
    magnitudeOfBits bits ≤ magnitudeOfBits bits' ↔ bits ≤ bits' := by
  rw [magnitudeOfBits, magnitudeOfBits,
    (normal_ofBits bits).magnitude_le_iff (normal_ofBits bits')]
  simp only [exponent]
  split <;> split <;> omega

/-! ### The fields of a double -/

section Fields

variable (b : BitVec Format.binary64.numBits)

theorem toNat_unpackExponent : (unpackExponent b).toNat = b.toNat / 2 ^ 52 % 2 ^ 11 := by
  simp [unpackExponent, Nat.shiftRight_eq_div_pow]

theorem toNat_unpackMantissa : (unpackMantissa b).toNat = b.toNat % 2 ^ 52 := by
  simp [unpackMantissa]

theorem ofBitVec_unpackSign :
    Sign.ofBitVec (unpackSign b) = if b.toNat < 2 ^ 63 then .positive else .negative := by
  have hlt : b.toNat < 2 ^ 64 := b.isLt
  have hsign : (unpackSign b).toNat = b.toNat / 2 ^ 63 % 2 := by
    simp [unpackSign, Nat.shiftRight_eq_div_pow]
  have hzero : unpackSign b = 0#1 ↔ b.toNat < 2 ^ 63 := by
    rw [← BitVec.toNat_inj, hsign, BitVec.toNat_ofNat]
    omega
  simp only [Sign.ofBitVec, hzero]

end Fields

theorem magnitudeOfBits_fields (e : Nat) {m : Nat} (hm : m < 2 ^ 52) :
    magnitudeOfBits (e * 2 ^ 52 + m) = magnitude (if e = 0 then m else 2 ^ 52 + m) (e - 1) := by
  have hdiv : (e * 2 ^ 52 + m) / 2 ^ 52 = e := by omega
  have hmod : (e * 2 ^ 52 + m) % 2 ^ 52 = m := by omega
  simp only [magnitudeOfBits, hdiv, hmod]

/-- A number stands where the magnitude of its fields is, on the side of its sign. -/
theorem eq_of_units?_ofFields {sign : Sign} {e : BitVec 11} {m : BitVec 52} {a : Int}
    (h : units? (ofFields sign e m) = some a) :
    a = sign.apply (magnitudeOfBits (e.toNat * 2 ^ 52 + m.toNat) : Nat) := by
  rw [magnitudeOfBits_fields _ m.isLt]
  rw [ofFields] at h
  split at h
  · rename_i hones
    split at h
    · rename_i hm
      rw [units?_infinity, limit_eq, Option.some.injEq] at h
      rw [← h, hones, hm]
      rfl
    · cases h
  · split at h
    · rename_i hzero
      have he : e.toNat = 0 := by rw [hzero]; rfl
      rw [if_pos he, he]
      split at h
      · rename_i hm
        have hm' : m.toNat = 0 := by rw [hm]; rfl
        rw [units?_zero, Option.some.injEq] at h
        rw [← h, hm', magnitude_zero]
        cases sign <;> rfl
      · rw [units?_finite, Option.some.injEq] at h
        exact h.symm
    · rename_i hzero
      have he : e.toNat ≠ 0 := fun h => hzero (BitVec.eq_of_toNat_eq h)
      rw [units?_finite, Option.some.injEq] at h
      rw [if_neg he, h]

theorem unpack_eq_fields (x : Float) : ∃ e : BitVec 11, ∃ m : BitVec 52,
    x.toModel.unpack = ofFields (if x.toBits.toNat < 2 ^ 63 then .positive else .negative) e m ∧
      e.toNat * 2 ^ 52 + m.toNat = x.toBits.toNat % 2 ^ 63 := by
  let b : BitVec Format.binary64.numBits := x.toBits.toBitVec
  refine ⟨unpackExponent b, unpackMantissa b, ?_, ?_⟩
  · have hunpack : x.toModel.unpack =
        ofFields (.ofBitVec (unpackSign b)) (unpackExponent b) (unpackMantissa b) :=
      unpack_eq_ofFields b
    rw [hunpack, ofBitVec_unpackSign]
    rfl
  · change (unpackExponent b).toNat * 2 ^ 52 + (unpackMantissa b).toNat = b.toNat % 2 ^ 63
    rw [toNat_unpackExponent, toNat_unpackMantissa]
    omega

/-- A number stands where the magnitude of its bits is, on the side of its sign. -/
theorem eq_of_place? {x : Float} {a : Int} (h : place? x = some a) :
    a = if x.toBits.toNat < 2 ^ 63 then (magnitudeOfBits (x.toBits.toNat % 2 ^ 63) : Int)
      else -magnitudeOfBits (x.toBits.toNat % 2 ^ 63) := by
  obtain ⟨e, m, hunpack, hfields⟩ := unpack_eq_fields x
  rw [place?, hunpack] at h
  rw [eq_of_units?_ofFields h, hfields]
  split <;> rfl

/-- The bits of the negative zero. -/
theorem isNegativeZero_of_toNat_eq {x : Float} (h : x.toBits.toNat = 2 ^ 63) :
    IsNegativeZero x := by
  obtain ⟨e, m, hunpack, hfields⟩ := unpack_eq_fields x
  rw [h, Nat.mod_self] at hfields
  have he : e = 0#11 := BitVec.eq_of_toNat_eq (by rw [BitVec.toNat_ofNat]; omega)
  have hm : m = 0#52 := BitVec.eq_of_toNat_eq (by rw [BitVec.toNat_ofNat]; omega)
  rw [IsNegativeZero, hunpack, h, he, hm]
  rfl

/-- Numbers of which none is the negative zero are ordered as the total order has them. -/
theorem le_iff_totalPlace_le {x y : Float} (hx : x ≤ x) (hy : y ≤ y) (hx' : ¬ IsNegativeZero x)
    (hy' : ¬ IsNegativeZero y) : x ≤ y ↔ totalPlace x ≤ totalPlace y := by
  obtain ⟨a, -, ha, -, -⟩ := le_iff_place?.mp hx
  obtain ⟨b, -, hb, -, -⟩ := le_iff_place?.mp hy
  have hle : x ≤ y ↔ a ≤ b := by
    simp [le_iff_place?, ha, hb]
  have hxlt : x.toBits.toNat < 2 ^ 64 := x.toBits.toNat_lt
  have hylt : y.toBits.toNat < 2 ^ 64 := y.toBits.toNat_lt
  have hxne : x.toBits.toNat ≠ 2 ^ 63 := mt isNegativeZero_of_toNat_eq hx'
  have hyne : y.toBits.toNat ≠ 2 ^ 63 := mt isNegativeZero_of_toNat_eq hy'
  rw [hle, eq_of_place? ha, eq_of_place? hb, totalPlace, totalPlace]
  generalize x.toBits.toNat = m at *
  generalize y.toBits.toNat = n at *
  have hmn := magnitudeOfBits_le_iff (m % 2 ^ 63) (n % 2 ^ 63)
  have hnm := magnitudeOfBits_le_iff (n % 2 ^ 63) (m % 2 ^ 63)
  have hm := magnitudeOfBits_le_iff (m % 2 ^ 63) 0
  have hn := magnitudeOfBits_le_iff (n % 2 ^ 63) 0
  have hzero : magnitudeOfBits 0 = 0 := magnitude_zero 0
  rw [hzero] at hm hn
  split_ifs <;> omega

/-! ### Sums -/

/-- What can be stored and is no negative zero is not read back as one. -/
theorem Stored.unpack_pack_ne {f : UnpackedFloat} (h : Stored f) (hne : f ≠ .zero .negative) :
    (Float.Model.pack f).unpack ≠ .zero .negative :=
  h.unpack_pack.trans_ne hne

theorem unpack_pack_round_ne (sign : Sign) {mantissa : Nat} (hm : mantissa ≠ 0) (power : Nat) :
    (Float.Model.pack (UnpackedFloat.round Format.binary64 sign mantissa (exponent power))).unpack ≠
      .zero .negative := by
  obtain ⟨m, p, h, hround, hnormal, -⟩ := round_eq sign hm power
  have hunpack := unpack_pack_finite sign h hnormal
  rw [hround]
  change UnpackedFloat.unpack Format.binary64
    (UnpackedFloat.pack Format.binary64 (.finite sign m (exponent p) h)) ≠ _
  rw [hunpack]
  split <;> simp

theorem unpack_pack_normalize_ne (mantissa : Int) (power : Nat) :
    (Float.Model.pack (UnpackedFloat.normalize Format.binary64 mantissa (exponent power)
      .positive)).unpack ≠ .zero .negative := by
  rcases lt_trichotomy mantissa 0 with hm | rfl | hm
  · simp only [UnpackedFloat.normalize, Int.compare_eq_lt.mpr hm]
    exact unpack_pack_round_ne .negative (by omega) power
  · exact Stored.zero.unpack_pack_ne (by simp)
  · simp only [UnpackedFloat.normalize, Int.compare_eq_gt.mpr hm]
    exact unpack_pack_round_ne .positive (by omega) power

/-- A sum is no negative zero if its first term is none. -/
theorem Stored.unpack_pack_add_ne {a b : UnpackedFloat} (ha : Stored a) (hb : Stored b)
    (hne : a ≠ .zero .negative) :
    (Float.Model.pack (UnpackedFloat.add Format.binary64 a b)).unpack ≠ .zero .negative := by
  -- but for two finite doubles, the sum is stored as it is
  cases ha with
  | notANumber => exact Stored.notANumber.unpack_pack_ne (by simp)
  | @infinity s =>
    cases hb with
    | notANumber => exact Stored.notANumber.unpack_pack_ne (by simp)
    | @infinity s' =>
      simp only [UnpackedFloat.add]
      split
      · exact Stored.infinity.unpack_pack_ne (by simp)
      · exact Stored.notANumber.unpack_pack_ne (by simp)
    | zero => exact Stored.infinity.unpack_pack_ne (by simp)
    | finite => exact Stored.infinity.unpack_pack_ne (by simp)
  | @zero s =>
    cases s with
    | negative => exact absurd rfl hne
    | positive =>
      cases hb with
      | notANumber => exact Stored.notANumber.unpack_pack_ne (by simp)
      | infinity => exact Stored.infinity.unpack_pack_ne (by simp)
      | @zero s' => cases s' <;> exact Stored.zero.unpack_pack_ne (by simp)
      | finite hnormal hp => exact (Stored.finite hnormal hp).unpack_pack_ne (by simp)
  | @finite s m p h hnormal hp =>
    cases hb with
    | notANumber => exact Stored.notANumber.unpack_pack_ne (by simp)
    | infinity => exact Stored.infinity.unpack_pack_ne (by simp)
    | zero => exact (Stored.finite hnormal hp).unpack_pack_ne (by simp)
    | @finite s' m' p' h' hnormal' hp' =>
      simp only [UnpackedFloat.add, exponent_min]
      exact unpack_pack_normalize_ne _ _

theorem not_isNegativeZero_add {x y : Float} (hx : ¬ IsNegativeZero x) :
    ¬ IsNegativeZero (x + y) :=
  (stored_unpack x.toModel).unpack_pack_add_ne (stored_unpack y.toModel) hx

end Constituency.Double
