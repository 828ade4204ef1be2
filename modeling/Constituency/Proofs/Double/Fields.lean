import Constituency.Proofs.Double.Rounding

/-!
# How a double is stored

A double is stored as a sign, a power and a mantissa, whose highest bit is left out where it is
known; the greatest power marks the infinities and what is no number, the least one zero. A rounded
number is read back as it was stored, unless its power is too great: then it is an infinity.
-/
namespace Constituency.Double

open Float.Model Float.Model.UnpackedFloat

/-- The double with given fields. -/
def ofFields (sign : Sign) (e : BitVec 11) (m : BitVec 52) : UnpackedFloat :=
  if e = -1#11 then if m = 0#52 then .infinity sign else .notANumber
  else if e = 0#11 then
    if h : m = 0#52 then .zero sign
    else .finite sign m.toNat (exponent 0) (by simpa [BitVec.toNat_pos, BitVec.pos_iff_ne_zero])
  else .finite sign (2 ^ 52 + m.toNat) (exponent (e.toNat - 1)) (by omega)

theorem toNat_one_append (m : BitVec 52) : (1#1 ++ m).toNat = 2 ^ 52 + m.toNat := by
  rw [BitVec.toNat_append, ← Nat.shiftLeft_add_eq_or_of_lt m.isLt]
  rfl

theorem unpack_eq_ofFields (b : BitVec Format.binary64.numBits) :
    UnpackedFloat.unpack Format.binary64 b =
      ofFields (.ofBitVec (unpackSign b)) (unpackExponent b) (unpackMantissa b) := by
  have hbias : (Format.binary64.exponentBias : Int) + (52 : Nat) = 1075 := by decide
  simp only [UnpackedFloat.unpack, ofFields, hbias, toNat_one_append]
  by_cases hzero : unpackExponent b = 0#11
  · simp only [hzero]
    rfl
  · have hpos : unpackExponent b ≠ 0 := hzero
    rw [if_neg hzero, if_neg hzero]
    have hpower : ((unpackExponent b).toNat : Int) - 1075 =
        exponent ((unpackExponent b).toNat - 1) := by
      have hne : (unpackExponent b).toNat ≠ 0 := fun h => hpos (BitVec.eq_of_toNat_eq h)
      simp only [exponent]
      omega
    simp only [hpower]

theorem unpack_packComponents (sign : Sign) (e : BitVec 11) (m : BitVec 52) :
    UnpackedFloat.unpack Format.binary64 (packComponents Format.binary64 sign e m) =
      ofFields sign e m := by
  rw [unpack_eq_ofFields, unpackSign_packComponents, unpackExponent_packComponents,
    unpackMantissa_packComponents, Sign.ofBitVec_toBitVec]

/-- The power at which the infinities stand. -/
def beyond : Nat := 2046

theorem ofFields_full (sign : Sign) {m p : Nat} (h : 0 < m) (hlt : m < 2 ^ 53) (hfull : 2 ^ 52 ≤ m)
    (hp : p < beyond) :
    ofFields sign (.ofNat 11 (p + 1)) (.ofNat 52 m) = .finite sign m (exponent p) h := by
  have hpower : (BitVec.ofNat 11 (p + 1)).toNat = p + 1 := by
    rw [beyond] at hp
    rw [BitVec.toNat_ofNat]
    omega
  have hmantissa : 2 ^ 52 + (BitVec.ofNat 52 m).toNat = m := by
    rw [BitVec.toNat_ofNat]
    omega
  have hones : BitVec.ofNat 11 (p + 1) ≠ -1#11 := fun heq => by
    have := congrArg BitVec.toNat heq
    rw [hpower] at this
    rw [beyond] at hp
    simp at this
    omega
  have hzero : BitVec.ofNat 11 (p + 1) ≠ 0#11 := fun heq => by
    have := congrArg BitVec.toNat heq
    rw [hpower] at this
    cases this
  simp only [ofFields, if_neg hones, if_neg hzero, hpower, hmantissa, Nat.add_sub_cancel]

theorem ofFields_least (sign : Sign) {m : Nat} (h : 0 < m) (hlt : m < 2 ^ 52) :
    ofFields sign 0#11 (.ofNat 52 m) = .finite sign m (exponent 0) h := by
  have hmantissa : (BitVec.ofNat 52 m).toNat = m := by
    rw [BitVec.toNat_ofNat]
    omega
  have hzero : BitVec.ofNat 52 m ≠ 0#52 := fun heq => by
    have := congrArg BitVec.toNat heq
    rw [hmantissa] at this
    exact h.ne' this
  have hones : 0#11 ≠ -1#11 := by decide
  simp only [ofFields, if_neg hones, if_true, dif_neg hzero, hmantissa]

/-- A rounded number is the double that it stands for, unless it is too great. -/
theorem unpack_pack_finite (sign : Sign) {m p : Nat} (h : 0 < m) (hnormal : Normal m p) :
    UnpackedFloat.unpack Format.binary64
        (UnpackedFloat.pack Format.binary64 (.finite sign m (exponent p) h)) =
      if p < beyond then .finite sign m (exponent p) h else .infinity sign := by
  have hbiased : (exponent p + (Format.binary64.exponentBias : Nat) + (52 : Nat)).toNat =
      p + 1 := by
    have hbias : (Format.binary64.exponentBias : Int) = 1023 := by decide
    rw [exponent, hbias]
    omega
  have hbits : Format.binary64.mantissaBits = 53 := rfl
  have hlog : m.log2 + 1 = 53 ↔ 2 ^ 52 ≤ m := by
    have hlt := (Nat.log2_lt h.ne').mpr hnormal.lt
    rw [← Nat.le_log2 h.ne']
    omega
  simp only [UnpackedFloat.pack, hbiased, hbits, hlog]
  by_cases hp : p < beyond
  · have hin : ¬ 2 ^ 11 ≤ p + 1 + 1 := by
      rw [beyond] at hp
      omega
    rw [if_pos hp, if_neg hin]
    split
    · rename_i hfull
      rw [unpack_packComponents, ofFields_full sign h hnormal.lt hfull hp]
    · rename_i hfull
      obtain rfl := hnormal.full.resolve_left hfull
      rw [unpack_packComponents, ofFields_least sign h (by omega)]
  · have hout : 2 ^ 11 ≤ p + 1 + 1 := by
      rw [beyond] at hp
      omega
    rw [if_neg hp, if_pos hout, packedInfinity, unpack_packComponents]
    rfl

end Constituency.Double
