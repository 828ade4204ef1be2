import Constituency.Proofs.Double.NumberLine

/-!
# Upper bounds of doubles

Whole numbers below `2 ^ 53` are doubles. So sums of doubles, rounded as they are, keep the bounds
that whole numbers are to their terms (`AtMost.add`), as long as the sum of the bounds is so small;
and adding what is not positive makes nothing greater (`AtMost.add_le`).
-/
namespace Constituency.Double

open Float.Model Float.Model.UnpackedFloat

/-- The place of a double on the number line, if it is a number. -/
def place? (x : Float) : Option Int :=
  units? x.toModel.unpack

theorem le_iff_place? {x y : Float} :
    x ≤ y ↔ ∃ a b, place? x = some a ∧ place? y = some b ∧ a ≤ b := by
  rw [place?, place?, ← le_iff (stored_unpack _) (stored_unpack _)]
  exact decide_eq_true_iff

theorem isPlace_of_place? {x : Float} {a : Int} (h : place? x = some a) : IsPlace a := by
  rw [place?] at h
  have hx := stored_unpack x.toModel
  generalize x.toModel.unpack = f at *
  cases hx with
  | notANumber => cases h
  | @infinity sign =>
    cases h
    exact ⟨sign, _, _, normal_limit, limit_eq.ge, by rw [limit_eq]⟩
  | zero =>
    cases h
    exact ⟨.positive, 0, 0, ⟨by decide, .inr rfl⟩, by simp, by simp [Sign.apply]⟩
  | @finite sign m p h' hnormal hp =>
    rw [units?_finite, Option.some.injEq] at h
    exact ⟨sign, m, p, hnormal, (hnormal.lt_limit hp).le, h.symm⟩

/-- A double that is a number and at most a whole number. -/
def AtMost (x : Float) (n : Nat) : Prop :=
  ∃ a, place? x = some a ∧ a ≤ magnitude n 1074

theorem exists_normal_whole {n : Nat} (h : n < 2 ^ 53) :
    ∃ m p, Normal m p ∧ p < beyond ∧ magnitude m p = magnitude n 1074 := by
  by_cases hn : n = 0
  · exact ⟨0, 0, ⟨by decide, .inr rfl⟩, by decide, by simp [hn]⟩
  · have hlog : n.log2 < 53 := (Nat.log2_lt hn).mpr h
    refine ⟨n * 2 ^ (52 - n.log2), 1074 - (52 - n.log2), ⟨?_, .inl ?_⟩, ?_, ?_⟩
    · calc n * 2 ^ (52 - n.log2) < 2 ^ (n.log2 + 1) * 2 ^ (52 - n.log2) :=
          Nat.mul_lt_mul_of_pos_right Nat.lt_log2_self (Nat.two_pow_pos _)
        _ = 2 ^ 53 := by rw [← Nat.pow_add]; congr 1; omega
    · calc 2 ^ 52 = 2 ^ n.log2 * 2 ^ (52 - n.log2) := by rw [← Nat.pow_add]; congr 1; omega
        _ ≤ n * 2 ^ (52 - n.log2) := Nat.mul_le_mul_right _ (Nat.log2_self_le hn)
    · rw [beyond]
      omega
    · rw [magnitude_mul_two_pow]
      congr 1
      omega

theorem isPlace_whole {n : Nat} (h : n < 2 ^ 53) : IsPlace (magnitude n 1074) := by
  obtain ⟨m, p, hnormal, hp, heq⟩ := exists_normal_whole h
  exact ⟨.positive, m, p, hnormal, (hnormal.lt_limit hp).le, by rw [heq, Sign.apply]⟩

theorem whole_lt_limit {n : Nat} (h : n < 2 ^ 53) : magnitude n 1074 < limit := by
  obtain ⟨m, p, hnormal, hp, heq⟩ := exists_normal_whole h
  exact heq ▸ hnormal.lt_limit hp

theorem place?_add {x y : Float} {a b t : Int} (hx : place? x = some a) (hy : place? y = some b)
    (ha : a < limit) (hb : b < limit) (ht : IsPlace t) (hle : a + b ≤ t) :
    ∃ c, place? (x + y) = some c ∧ c ≤ t := by
  obtain ⟨c, hc, hle'⟩ := (stored_unpack _).rounds_add (stored_unpack _) hx hy ha hb
  exact ⟨c, hc, hle' t ht hle⟩

theorem le_trans {x y z : Float} (h : x ≤ y) (h' : y ≤ z) : x ≤ z := by
  obtain ⟨a, b, ha, hb, hab⟩ := le_iff_place?.mp h
  obtain ⟨b', c, hb', hc, hbc⟩ := le_iff_place?.mp h'
  obtain rfl := Option.some.inj (hb.symm.trans hb')
  exact le_iff_place?.mpr ⟨a, c, ha, hc, hab.trans hbc⟩

/-- Any two numbers can be compared. -/
theorem le_total {x y : Float} (hx : x ≤ x) (hy : y ≤ y) : x ≤ y ∨ y ≤ x := by
  obtain ⟨a, -, ha, -, -⟩ := le_iff_place?.mp hx
  obtain ⟨b, -, hb, -, -⟩ := le_iff_place?.mp hy
  exact (Int.le_total a b).imp (fun h => le_iff_place?.mpr ⟨a, b, ha, hb, h⟩)
    fun h => le_iff_place?.mpr ⟨b, a, hb, ha, h⟩

theorem le_refl_of_le {x y : Float} (h : x ≤ y) : x ≤ x ∧ y ≤ y := by
  obtain ⟨a, b, ha, hb, -⟩ := le_iff_place?.mp h
  exact ⟨le_iff_place?.mpr ⟨a, a, ha, ha, Int.le_refl a⟩,
    le_iff_place?.mpr ⟨b, b, hb, hb, Int.le_refl b⟩⟩

theorem AtMost.le_refl {x : Float} {n : Nat} (h : AtMost x n) : x ≤ x := by
  obtain ⟨a, ha, -⟩ := h
  exact le_iff_place?.mpr ⟨a, a, ha, ha, Int.le_refl a⟩

theorem AtMost.of_le {x y : Float} {n : Nat} (h : AtMost y n) (hle : x ≤ y) : AtMost x n := by
  obtain ⟨a, b, ha, hb, hab⟩ := le_iff_place?.mp hle
  obtain ⟨b', hb', hn⟩ := h
  obtain rfl := Option.some.inj (hb.symm.trans hb')
  exact ⟨a, ha, hab.trans hn⟩

theorem AtMost.mono {x : Float} {m n : Nat} (h : AtMost x m) (hle : m ≤ n) : AtMost x n := by
  obtain ⟨a, ha, hm⟩ := h
  obtain ⟨k, rfl⟩ := Nat.exists_eq_add_of_le hle
  exact ⟨a, ha, by rw [magnitude_add]; omega⟩

theorem atMost_zero : AtMost 0 0 :=
  ⟨0, rfl, by simp⟩

theorem atMost_one : AtMost 1 1 := by
  refine ⟨magnitude (2 ^ 52) 1022, rfl, ?_⟩
  rw [← Nat.one_mul (2 ^ 52), magnitude_mul_two_pow]

/-- The sum of doubles that are at most whole numbers is at most their sum. -/
theorem AtMost.add {x y : Float} {m n : Nat} (hx : AtMost x m) (hy : AtMost y n)
    (hsmall : m + n < 2 ^ 53) : AtMost (x + y) (m + n) := by
  obtain ⟨a, ha, hm⟩ := hx
  obtain ⟨b, hb, hn⟩ := hy
  have hlimit : (magnitude m 1074 : Int) < limit := by exact_mod_cast whole_lt_limit (by omega)
  have hlimit' : (magnitude n 1074 : Int) < limit := by exact_mod_cast whole_lt_limit (by omega)
  refine place?_add ha hb (by omega) (by omega) (isPlace_whole hsmall) ?_
  rw [magnitude_add]
  omega

/-- Adding what is not positive makes nothing greater. -/
theorem AtMost.add_le {x s : Float} {n : Nat} (hs : AtMost s n) (hsmall : n < 2 ^ 53)
    (hx : x ≤ 0) : x + s ≤ s := by
  obtain ⟨a, ha, hzero⟩ := atMost_zero.of_le hx
  obtain ⟨b, hb, hn⟩ := hs
  have hlimit : (magnitude n 1074 : Int) < limit := by exact_mod_cast whole_lt_limit hsmall
  rw [magnitude_zero] at hzero
  obtain ⟨c, hc, hle⟩ := place?_add ha hb (by omega) (by omega) (isPlace_of_place? hb) (by omega)
  exact le_iff_place?.mpr ⟨c, b, hc, hb, hle⟩

end Constituency.Double
