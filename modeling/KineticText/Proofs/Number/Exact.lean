import KineticText.Datum.Number
import KineticText.Proofs.Number.Nearest

/-!
# Exact values

The number that a decimal, a double or a quantity stands for, as a rational
number.  The operations of the library compute with digits and ranks; here
each of them is compared with these values.

There are four groups.

* Decimals.  `Decimal.lt_iff_value` compares exactly, and the leading exponent
  is the order of magnitude (`Decimal.abs_value_lt`, `Decimal.le_abs_value`).
* Doubles and quantities: the exact number of each.  Whole numbers below
  `2 ^ 53` are doubles (`Binary64.value_ofInt`).
* The nearest double.  `Decimal.toBinary64_eq` shows that the two short cuts of
  `Decimal.toBinary64`, for very long and very small decimals, are right, so
  that the double depends on the value and the sign only.
* Positive doubles.
-/

namespace KineticText

/-! ## Decimals -/

namespace Decimal

/-- The exact number. -/
def value (d : Decimal) : ℚ :=
  (if d.negative then -(d.coefficient : ℚ) else d.coefficient) * 10 ^ d.exponent

theorem value_of_nonneg {d : Decimal} (h : d.negative = false) :
    d.value = d.coefficient * 10 ^ d.exponent := by
  simp [value, h]

theorem value_congr {a b : Decimal} (hsign : a.negative = b.negative)
    (hmagnitude : (a.coefficient : ℚ) * 10 ^ a.exponent = b.coefficient * 10 ^ b.exponent) :
    a.value = b.value := by
  rw [value, value, hsign]
  cases b.negative <;> simp [hmagnitude]

/-- A power of ten as the quotient of two powers with whole exponents. -/
theorem tenPow_split (e : ℤ) : (10 : ℚ) ^ e.toNat / 10 ^ (-e).toNat = 10 ^ e := by
  rw [← zpow_natCast, ← zpow_natCast, ← zpow_sub₀ (by norm_num)]
  congr 1
  omega

theorem abs_value (d : Decimal) : |d.value| = d.coefficient * 10 ^ d.exponent := by
  have hpow : (0 : ℚ) < 10 ^ d.exponent := by positivity
  rw [value, abs_mul, abs_of_pos hpow]
  split_ifs
  · rw [abs_neg, Nat.abs_cast]
  · rw [Nat.abs_cast]

/-- The coefficient at a smaller exponent stands for the same number. -/
theorem scaledTo_mul (d : Decimal) {e : ℤ} (h : e ≤ d.exponent) :
    (d.scaledTo e : ℚ) * 10 ^ e = d.value := by
  have hpow : (10 : ℚ) ^ (d.exponent - e).toNat * 10 ^ e = 10 ^ d.exponent := by
    rw [← zpow_natCast, Int.toNat_of_nonneg (by omega), ← zpow_add₀ (by norm_num)]
    congr 1
    omega
  rw [value, scaledTo]
  cases d.negative <;> simp [mul_assoc, hpow]

theorem lt_iff_value {a b : Decimal} : a < b ↔ a.value < b.value := by
  show a.lt b = true ↔ _
  have hpow : (0 : ℚ) < 10 ^ min a.exponent b.exponent := by positivity
  rw [lt, decide_eq_true_iff, ← a.scaledTo_mul (min_le_left _ _),
    ← b.scaledTo_mul (min_le_right _ _), mul_lt_mul_iff_of_pos_right hpow, Int.cast_lt]

@[simp] theorem value_ofInt (i : ℤ) : (ofInt i).value = i := by
  rcases lt_or_ge i 0 with h | h
  · have habs : (i.natAbs : ℚ) = -i := by
      rw [Nat.cast_natAbs, abs_of_neg h, Int.cast_neg]
    simp [value, ofInt, h, habs]
  · have habs : (i.natAbs : ℚ) = i := by
      rw [Nat.cast_natAbs, abs_of_nonneg h]
    simp [value, ofInt, not_lt.2 h, habs]

theorem negative_eq_false_of_pos {d : Decimal} (h : 0 < d.value) : d.negative = false := by
  by_contra hneg
  have hpow : (0 : ℚ) < 10 ^ d.exponent := by positivity
  rw [value, if_pos (by simpa using hneg)] at h
  have := mul_nonneg (Nat.cast_nonneg d.coefficient) hpow.le
  linarith

theorem coefficient_lt (d : Decimal) : d.coefficient < 10 ^ d.digitCount :=
  (Nat.length_toDigits_le_iff (by decide) Nat.length_toDigits_pos).1 le_rfl

theorem le_coefficient {d : Decimal} (h : d.coefficient ≠ 0) :
    10 ^ (d.digitCount - 1) ≤ d.coefficient := by
  rcases Nat.eq_zero_or_pos (d.digitCount - 1) with h0 | hpos
  · rw [h0, pow_zero]
    omega
  · by_contra hlt
    have := (Nat.length_toDigits_le_iff (by decide) hpos).2 (not_le.1 hlt)
    rw [digitCount] at *
    omega

theorem digitCount_le {d : Decimal} {k : ℕ} (hk : 0 < k) (h : d.coefficient < 10 ^ k) :
    d.digitCount ≤ k :=
  (Nat.length_toDigits_le_iff (by decide) hk).2 h

/-- A number is below the power of ten behind its leading digit. -/
theorem abs_value_lt (d : Decimal) : |d.value| < 10 ^ (d.leadingExponent + 1) := by
  have hcoefficient : (d.coefficient : ℚ) < 10 ^ d.digitCount := by
    exact_mod_cast d.coefficient_lt
  have hpow : (0 : ℚ) < 10 ^ d.exponent := by positivity
  rw [abs_value, leadingExponent, show d.exponent + d.digitCount - 1 + 1
    = (d.digitCount : ℤ) + d.exponent by omega, zpow_add₀ (by norm_num), zpow_natCast]
  exact mul_lt_mul_of_pos_right hcoefficient hpow

/-- A number other than zero is not below the power of ten at its leading
digit. -/
theorem le_abs_value {d : Decimal} (h : d.coefficient ≠ 0) :
    10 ^ d.leadingExponent ≤ |d.value| := by
  have hcoefficient : (10 : ℚ) ^ (d.digitCount - 1) ≤ d.coefficient := by
    exact_mod_cast le_coefficient h
  have hpow : (0 : ℚ) < 10 ^ d.exponent := by positivity
  have hcount : 0 < d.digitCount := Nat.length_toDigits_pos
  rw [abs_value, leadingExponent, show d.exponent + d.digitCount - 1
    = ((d.digitCount - 1 : ℕ) : ℤ) + d.exponent by omega, zpow_add₀ (by norm_num), zpow_natCast]
  exact mul_le_mul_of_nonneg_right hcoefficient hpow.le

end Decimal

/-! ## Doubles and quantities -/

namespace Binary64

/-- The exact number of a finite double. -/
def value (x : Binary64) : ℚ := x.units / 2 ^ 1074

theorem value_finite (negative : Bool) (m : Magnitude) :
    (finite negative m).value = if negative then -magnitudeAt m.rank else magnitudeAt m.rank := by
  cases negative <;> simp [value, units, magnitudeAt, Magnitude.units, neg_div]

theorem ofRank_rank (negative : Bool) (m : Magnitude) :
    ofRank negative m.rank = finite negative m := by
  simp [ofRank, m.rank_lt]

@[simp] theorem isNaN_ofRank (negative : Bool) (rank : ℕ) : (ofRank negative rank).isNaN = false := by
  unfold ofRank
  split <;> rfl

@[simp] theorem isNegative_ofRank (negative : Bool) (rank : ℕ) :
    (ofRank negative rank).isNegative = negative := by
  unfold ofRank
  split <;> rfl

theorem rank_ofRank (negative : Bool) (rank : ℕ) :
    (ofRank negative rank).rank = min rank rankLimit := by
  unfold ofRank
  split
  · rename_i h
    exact (Nat.min_eq_left h.le).symm
  · rename_i h
    exact (Nat.min_eq_right (not_lt.1 h)).symm

/-- The double is the one nearest to the number: its rank is nearest to the
magnitude and its sign is that of the number. -/
def IsNearest (q : ℚ) (x : Binary64) : Prop :=
  ∃ rank, IsNearestRank |q| rank ∧ x = ofRank (decide (q < 0)) rank

end Binary64

/-- Whole numbers below `2 ^ 53` are magnitudes. -/
theorem exists_magnitudeAt_eq {n : ℕ} (h : n < 2 ^ 53) :
    ∃ m : Magnitude, magnitudeAt m.rank = n := by
  rcases Nat.eq_zero_or_pos n with rfl | hpos
  · exact ⟨⟨0, by decide⟩, by simp⟩
  have hlow : 2 ^ n.log2 ≤ n := Nat.log2_self_le hpos.ne'
  have hhigh : n < 2 ^ (n.log2 + 1) := Nat.lt_log2_self
  have hlog : n.log2 ≤ 52 := by
    have := (Nat.log2_lt hpos.ne').2 h
    omega
  -- Shifted to 53 digits, the number is the place in its block.
  have hup : n * twoPow (52 - n.log2) < 2 * twoPow 52 := by
    calc n * twoPow (52 - n.log2) < 2 ^ (n.log2 + 1) * twoPow (52 - n.log2) :=
          Nat.mul_lt_mul_of_pos_right hhigh (twoPow_pos _)
      _ = 2 ^ (n.log2 + 1 + (52 - n.log2)) := (pow_add ..).symm
      _ = 2 * twoPow 52 := by rw [show n.log2 + 1 + (52 - n.log2) = 53 by omega]; decide
  have hdown : twoPow 52 ≤ n * twoPow (52 - n.log2) := by
    calc twoPow 52 = 2 ^ (n.log2 + (52 - n.log2)) := by rw [Nat.add_sub_cancel' hlog]; decide
      _ = 2 ^ n.log2 * twoPow (52 - n.log2) := pow_add ..
      _ ≤ n * twoPow (52 - n.log2) := Nat.mul_le_mul_right _ hlow
  have hunits := unitsAt_block (w := n.log2 + 1022) hup.le (.inr hdown)
  have hblock : (n.log2 + 1022) * twoPow 52 ≤ 1074 * twoPow 52 :=
    Nat.mul_le_mul_right _ (by omega)
  refine ⟨⟨(n.log2 + 1022) * twoPow 52 + n * twoPow (52 - n.log2), ?_⟩, ?_⟩
  · have : 0 < twoPow 52 := twoPow_pos 52
    unfold rankLimit
    omega
  · rw [magnitudeAt, hunits, Nat.cast_mul, Nat.cast_mul, cast_twoPow, cast_twoPow, mul_assoc,
      ← pow_add, show 52 - n.log2 + (n.log2 + 1022) = 1074 by omega, mul_div_assoc,
      div_self (by positivity), mul_one]

theorem Binary64.value_ofInt {i : ℤ} (h : i.natAbs < 2 ^ 53) : (ofInt i).value = i := by
  obtain ⟨m, hm⟩ := exists_magnitudeAt_eq h
  have hrank : nearestRank (i.natAbs * twoPow 1074) 1 = m.rank :=
    (isNearestRank_natCast i.natAbs).unique (hm ▸ isNearestRank_magnitudeAt m.rank)
  rw [ofInt, ofFraction, nearest, hrank, ofRank_rank, value_finite, hm, Nat.cast_natAbs,
    Int.cast_abs]
  by_cases hneg : i < 0
  · rw [decide_eq_true hneg, if_pos rfl, abs_of_neg (by exact_mod_cast hneg), neg_neg]
  · rw [decide_eq_false hneg, if_neg (by decide), abs_of_nonneg (by exact_mod_cast not_lt.1 hneg)]

/-- The exact number of a quantity. -/
def Quantity.value : Quantity → ℚ
  | .whole value => value
  | .real value => value.value
  | .truth value => if value then 1 else 0

/-! ## The nearest double -/

theorem magnitudeAt_rankLimit : magnitudeAt rankLimit = 2 ^ 1024 := by
  rw [magnitudeAt, unitsAt_rankLimit, twoPow_add, Nat.cast_mul, cast_twoPow, cast_twoPow, mul_div_assoc,
    div_self (by positivity), mul_one]

/-- Numbers with more than 310 digits are beyond the finite magnitudes. -/
theorem magnitudeAt_rankLimit_le : magnitudeAt rankLimit ≤ 10 ^ (311 : ℤ) := by
  have hpow : twoPow 1024 ≤ tenPow 311 :=
    (twoPow_lt_tenPow 1024).le.trans (tenPow_mono (by decide))
  rw [magnitudeAt_rankLimit, ← cast_twoPow, show (311 : ℤ) = (311 : ℕ) from rfl, zpow_natCast,
    ← cast_tenPow]
  exact_mod_cast hpow

/-- Numbers with 330 zeros behind the point are nearer to zero than to the
first positive magnitude. -/
theorem le_magnitudeAt_one : 2 * 10 ^ (-330 : ℤ) ≤ magnitudeAt 1 := by
  have hpow : 2 * twoPow 1074 ≤ tenPow 330 := by
    have hlt := twoPow_lt_tenPow (1 + 1074)
    rw [twoPow_add, show twoPow 1 = 2 from rfl] at hlt
    exact hlt.le.trans (tenPow_mono (by decide))
  have hpow' : (2 : ℚ) * 2 ^ 1074 ≤ 10 ^ 330 := by
    rw [← cast_twoPow, ← cast_tenPow]
    exact_mod_cast hpow
  rw [magnitudeAt, show unitsAt 1 = 1 by decide, Nat.cast_one, zpow_neg,
    show (330 : ℤ) = (330 : ℕ) from rfl, zpow_natCast, ← div_eq_mul_inv,
    div_le_div_iff₀ (by positivity) (by positivity), one_mul]
  exact hpow'

namespace Decimal

/-- The double of a decimal has the rank nearest to its magnitude and the sign
of the decimal. -/
theorem toBinary64_eq (d : Decimal) :
    ∃ rank, IsNearestRank |d.value| rank ∧ d.toBinary64 = .ofRank d.negative rank := by
  have hlimit : 0 < rankLimit := by decide
  by_cases hzero : d.coefficient = 0
  · refine ⟨0, ?_, ?_⟩
    · rw [abs_value, hzero]
      simpa using isNearestRank_magnitudeAt 0
    · simp [toBinary64, hzero, Binary64.ofRank, hlimit, Binary64.zero]
  by_cases hlong : 310 < d.leadingExponent
  · obtain ⟨rank, hrank⟩ := exists_isNearestRank (abs_nonneg d.value)
    have hbeyond : magnitudeAt rankLimit ≤ |d.value| := by
      calc magnitudeAt rankLimit ≤ 10 ^ (311 : ℤ) := magnitudeAt_rankLimit_le
        _ ≤ 10 ^ d.leadingExponent := zpow_le_zpow_right₀ (by norm_num) (by omega)
        _ ≤ |d.value| := le_abs_value hzero
    have hle : rankLimit ≤ rank := (isNearestRank_magnitudeAt rankLimit).mono hrank hbeyond
    refine ⟨rank, hrank, ?_⟩
    simp [toBinary64, hzero, hlong, Binary64.ofRank, not_lt.2 hle]
  by_cases hsmall : d.leadingExponent < -330
  · refine ⟨0, isNearestRank_of_inInterval ?_, ?_⟩
    · have htiny : |d.value| ≤ 10 ^ (-330 : ℤ) :=
        d.abs_value_lt.le.trans (zpow_le_zpow_right₀ (by norm_num) (by omega))
      have hone := le_magnitudeAt_one
      have hnonneg := abs_nonneg d.value
      simp only [InInterval, Nat.zero_mod, if_true, Nat.zero_sub, magnitudeAt_zero, zero_add]
      constructor <;> linarith
    · simp [toBinary64, hzero, hlong, hsmall, Binary64.ofRank, hlimit, Binary64.zero]
  · have hrank := isNearestRank_fraction (d.coefficient * tenPow d.exponent.toNat)
      (tenPow_pos (-d.exponent).toNat)
    have hvalue : ((d.coefficient * tenPow d.exponent.toNat : ℕ) : ℚ) /
        (tenPow (-d.exponent).toNat : ℕ) = |d.value| := by
      rw [abs_value, Nat.cast_mul, cast_tenPow, cast_tenPow, mul_div_assoc, tenPow_split]
    rw [hvalue] at hrank
    refine ⟨_, hrank, ?_⟩
    simp only [toBinary64, hzero, hlong, hsmall, if_false]
    rfl

theorem toBinary64_of_isNearestRank {d : Decimal} {rank : ℕ}
    (h : IsNearestRank |d.value| rank) : d.toBinary64 = .ofRank d.negative rank := by
  obtain ⟨rank', hrank', hd⟩ := d.toBinary64_eq
  rw [hd, h.unique hrank']

/-- The double depends on the sign and the magnitude of the decimal only. -/
theorem toBinary64_congr {a b : Decimal} (hvalue : |a.value| = |b.value|)
    (hsign : a.negative = b.negative) : a.toBinary64 = b.toBinary64 := by
  obtain ⟨rank, hrank, ha⟩ := a.toBinary64_eq
  rw [hvalue] at hrank
  rw [ha, hsign, toBinary64_of_isNearestRank hrank]

theorem isNearest_toBinary64 {d : Decimal} (h : d.negative = decide (d.value < 0)) :
    Binary64.IsNearest d.value d.toBinary64 := by
  obtain ⟨rank, hrank, hd⟩ := d.toBinary64_eq
  exact ⟨rank, hrank, by rw [hd, h]⟩

end Decimal

/-! ## Zero and positive doubles -/

namespace Binary64

theorem zero_eq : (0 : Binary64) = .ofRank false 0 := by
  have hofInt : (0 : Binary64) = ofInt (0 : ℕ) := rfl
  rw [hofInt, ofInt, ofFraction, nearest, Int.natAbs_natCast, Nat.zero_mul,
    nearestRank_zero Nat.one_pos]
  rfl

theorem isNaN_zero : (0 : Binary64).isNaN = false := by rw [zero_eq, isNaN_ofRank]

theorem isFinite_zero : (0 : Binary64).isFinite = true := by
  rw [zero_eq]
  rfl

theorem key_zero : (0 : Binary64).key = 0 := by
  simp [zero_eq, key, rank_ofRank]

theorem zero_lt_iff {x : Binary64} :
    0 < x ↔ x.isNaN = false ∧ x.isNegative = false ∧ 0 < x.rank := by
  rw [lt_iff_key, key_zero, isNaN_zero, key]
  cases x.isNegative <;> simp

theorem zero_lt_ofRank {negative : Bool} {rank : ℕ} :
    0 < ofRank negative rank ↔ negative = false ∧ 0 < rank := by
  have hlimit : 0 < rankLimit := by decide
  rw [zero_lt_iff, isNaN_ofRank, isNegative_ofRank, rank_ofRank, lt_min_iff]
  simp [hlimit]

end Binary64

/-- The double of a positive decimal is positive unless the rank nearest to it
is that of zero. -/
theorem Decimal.zero_lt_toBinary64 {d : Decimal} {rank : ℕ} (h : IsNearestRank d.value rank)
    (hpos : 0 < d.value) : 0 < d.toBinary64 ↔ 0 < rank := by
  rw [← abs_of_pos hpos] at h
  rw [toBinary64_of_isNearestRank h, Binary64.zero_lt_ofRank, negative_eq_false_of_pos hpos]
  simp

end KineticText
