import KineticText.Proofs.Number.Rounded
import KineticText.Proofs.Number.Written

/-!
# The order of rounded decimals

Rounding to 28 digits keeps the order of decimals (`Decimal.round_mono`), and
with it addition does (`Decimal.add_mono`); rounding to a double does so too
(`Decimal.toBinary64_mono`).  A decimal of at most 28 digits is its own rounded
number, so that a term that is not negative makes no such decimal smaller
(`Decimal.le_add`).

The digits that rounding keeps are a rounded quotient: the number by the unit
of its 28th digit.  Numbers with the same leading digit have the same unit, and
there the order is that of rounded quotients (`halfEven_mono`).  Otherwise the
smaller number is at most the power of ten at which the larger one begins, and
stays so when both are rounded.

There are three groups: rounded quotients, rounded decimals, and sums.
-/

namespace KineticText

/-! ## Rounded quotients -/

/-- Rounding keeps the order of quotients. -/
theorem halfEven_mono {m n c d : ℕ} (hc : 0 < c) (hd : 0 < d) (h : m * d ≤ n * c) :
    halfEven m c ≤ halfEven n d := by
  by_contra hlt
  obtain ⟨hup, -⟩ := halfEven_error m hc
  obtain ⟨-, hdown⟩ := halfEven_error n hd
  have hevenUp := halfEven_even (n := m) hc
  have hevenDown := halfEven_even (n := n) hd
  generalize halfEven m c = p at hlt hup hevenUp
  generalize halfEven n d = q at hlt hdown hevenDown
  -- Over the common divisor both are ties, and the results are neighbours.
  have hupScaled : 2 * (p * (c * d)) ≤ 2 * (m * d) + c * d := by
    calc 2 * (p * (c * d)) = 2 * (p * c) * d := by ring
      _ ≤ (2 * m + c) * d := Nat.mul_le_mul_right d hup
      _ = 2 * (m * d) + c * d := by ring
  have hdownScaled : 2 * (n * c) ≤ 2 * (q * (c * d)) + c * d := by
    calc 2 * (n * c) = 2 * n * c := by ring
      _ ≤ (2 * (q * d) + d) * c := Nat.mul_le_mul_right c hdown
      _ = 2 * (q * (c * d)) + c * d := by ring
  have hnext : (q + 1) * (c * d) ≤ p * (c * d) := Nat.mul_le_mul_right _ (by omega)
  rw [Nat.add_mul, Nat.one_mul] at hnext
  have hneighbours : p = q + 1 := by
    refine le_antisymm (Nat.le_of_mul_le_mul_right ?_ (Nat.mul_pos hc hd)) (by omega)
    rw [Nat.add_mul, Nat.one_mul]
    omega
  have htieUp : 2 * (p * c) = 2 * m + c := by
    refine Nat.eq_of_mul_eq_mul_right hd ?_
    calc 2 * (p * c) * d = 2 * (p * (c * d)) := by ring
      _ = 2 * (m * d) + c * d := by omega
      _ = (2 * m + c) * d := by ring
  have htieDown : 2 * n = 2 * (q * d) + d := by
    refine Nat.eq_of_mul_eq_mul_right hc ?_
    calc 2 * n * c = 2 * (n * c) := by ring
      _ = 2 * (q * (c * d)) + c * d := by omega
      _ = (2 * (q * d) + d) * c := by ring
  have hp := hevenUp (.inl htieUp)
  have hq := hevenDown (.inr htieDown)
  omega

theorem halfEven_le {n d q : ℕ} (hd : 0 < d) (h : n ≤ q * d) : halfEven n d ≤ q := by
  rw [← halfEven_mul q hd]
  exact halfEven_mono hd hd (Nat.mul_le_mul_right d h)

theorem le_halfEven {n d q : ℕ} (hd : 0 < d) (h : q * d ≤ n) : q ≤ halfEven n d := by
  rw [← halfEven_mul q hd]
  exact halfEven_mono hd hd (Nat.mul_le_mul_right d h)

/-! ## Rounded decimals -/

namespace Decimal

/-- The exponent of the 28th digit of a number. -/
def lastPlace (d : Decimal) : ℤ := d.leadingExponent - 27

/-- The number by the unit of its 28th digit is the first of these by the
second. -/
def digitsAbove (d : Decimal) : ℕ := d.coefficient * tenPow (precision - d.digitCount)

def digitsBelow (d : Decimal) : ℕ := tenPow (d.digitCount - precision)

theorem digitsBelow_pos (d : Decimal) : 0 < d.digitsBelow := tenPow_pos _

theorem digitsAbove_of_le {d : Decimal} (h : precision ≤ d.digitCount) :
    d.digitsAbove = d.coefficient := by
  rw [digitsAbove, Nat.sub_eq_zero_of_le h, tenPow, Nat.pow_eq, pow_zero, mul_one]

theorem abs_value_eq (d : Decimal) :
    |d.value| = d.digitsAbove / d.digitsBelow * 10 ^ d.lastPlace := by
  have hprecision : precision = 28 := rfl
  have hsplit := tenPow_split ((precision : ℤ) - d.digitCount)
  rw [show ((precision : ℤ) - d.digitCount).toNat = precision - d.digitCount by omega,
    show (-((precision : ℤ) - d.digitCount)).toNat = d.digitCount - precision by omega] at hsplit
  rw [abs_value, digitsAbove, digitsBelow, Nat.cast_mul, cast_tenPow, cast_tenPow, mul_div_assoc,
    hsplit, mul_assoc, ← zpow_add₀ (by norm_num), lastPlace, leadingExponent]
  congr 2
  omega

/-- The rounded number is the rounded quotient in units of the 28th digit. -/
theorem abs_value_round (d : Decimal) :
    |d.round.value| = halfEven d.digitsAbove d.digitsBelow * 10 ^ d.lastPlace := by
  have hprecision : precision = 28 := rfl
  rcases Nat.eq_zero_or_pos (d.digitCount - precision) with hzero | hpos
  · have hround : d.round = d := by
      unfold round
      simp [hzero]
    have hbelow : d.digitsBelow = 1 := by rw [digitsBelow, hzero, tenPow, Nat.pow_eq, pow_zero]
    have hhalf := halfEven_mul d.digitsAbove Nat.one_pos
    rw [mul_one] at hhalf
    rw [hround, abs_value_eq, hbelow, hhalf, Nat.cast_one, div_one]
  · rw [value_round rfl hpos, abs_value, digitsAbove_of_le (by omega), digitsBelow, lastPlace,
      leadingExponent]
    congr 2
    dsimp only
    omega

theorem le_digitsAbove {d : Decimal} (h : d.coefficient ≠ 0) :
    tenPow 27 * d.digitsBelow ≤ d.digitsAbove := by
  have hprecision : precision = 28 := rfl
  have hcount : 0 < d.digitCount := Nat.length_toDigits_pos
  calc tenPow 27 * d.digitsBelow = 10 ^ (d.digitCount - 1) * tenPow (precision - d.digitCount) := by
        rw [digitsBelow, tenPow, tenPow, tenPow, Nat.pow_eq, Nat.pow_eq, Nat.pow_eq, ← pow_add,
          ← pow_add]
        congr 1
        omega
    _ ≤ d.digitsAbove := Nat.mul_le_mul_right _ (le_coefficient h)

theorem digitsAbove_le (d : Decimal) : d.digitsAbove ≤ tenPow 28 * d.digitsBelow := by
  have hprecision : precision = 28 := rfl
  calc d.digitsAbove ≤ 10 ^ d.digitCount * tenPow (precision - d.digitCount) :=
        Nat.mul_le_mul_right _ d.coefficient_lt.le
    _ = tenPow 28 * d.digitsBelow := by
        rw [digitsBelow, tenPow, tenPow, tenPow, Nat.pow_eq, Nat.pow_eq, Nat.pow_eq, ← pow_add,
          ← pow_add]
        congr 1
        omega

/-- A rounded number is not below the power of ten at its leading digit. -/
theorem le_abs_value_round {d : Decimal} (h : d.coefficient ≠ 0) :
    10 ^ d.leadingExponent ≤ |d.round.value| := by
  have hkept : (10 : ℚ) ^ 27 ≤ halfEven d.digitsAbove d.digitsBelow := by
    rw [← cast_tenPow]
    exact_mod_cast le_halfEven d.digitsBelow_pos (le_digitsAbove h)
  rw [abs_value_round, show d.leadingExponent = (27 : ℕ) + d.lastPlace by rw [lastPlace]; omega,
    zpow_add₀ (by norm_num), zpow_natCast]
  exact mul_le_mul_of_nonneg_right hkept (by positivity)

/-- A rounded number is at most the power of ten behind its leading digit. -/
theorem abs_value_round_le (d : Decimal) : |d.round.value| ≤ 10 ^ (d.leadingExponent + 1) := by
  have hkept : (halfEven d.digitsAbove d.digitsBelow : ℚ) ≤ 10 ^ 28 := by
    rw [← cast_tenPow]
    exact_mod_cast halfEven_le d.digitsBelow_pos d.digitsAbove_le
  rw [abs_value_round, show d.leadingExponent + 1 = (28 : ℕ) + d.lastPlace by rw [lastPlace]; omega,
    zpow_add₀ (by norm_num), zpow_natCast]
  exact mul_le_mul_of_nonneg_right hkept (by positivity)

theorem value_round_of_zero {d : Decimal} (h : d.value = 0) : d.round.value = 0 := by
  have herror := round_error d
  rw [h, abs_zero, zero_div, sub_zero] at herror
  exact abs_nonpos_iff.1 herror

theorem value_eq_zero {d : Decimal} (h : d.coefficient = 0) : d.value = 0 := by
  rw [← abs_eq_zero, abs_value, h, Nat.cast_zero, zero_mul]

/-- Rounding keeps the order of magnitudes. -/
theorem abs_round_mono {a b : Decimal} (h : |a.value| ≤ |b.value|) :
    |a.round.value| ≤ |b.round.value| := by
  rcases eq_or_ne a.coefficient 0 with ha | ha
  · rw [value_round_of_zero (value_eq_zero ha), abs_zero]
    exact abs_nonneg _
  rcases eq_or_ne b.coefficient 0 with hb | hb
  · rw [value_eq_zero hb, abs_zero, abs_nonpos_iff] at h
    rw [value_round_of_zero h, abs_zero]
    exact abs_nonneg _
  rcases lt_trichotomy a.leadingExponent b.leadingExponent with hlt | heq | hgt
  · calc |a.round.value| ≤ 10 ^ (a.leadingExponent + 1) := abs_value_round_le a
      _ ≤ 10 ^ b.leadingExponent := zpow_le_zpow_right₀ (by norm_num) hlt
      _ ≤ |b.round.value| := le_abs_value_round hb
  · have hplace : a.lastPlace = b.lastPlace := by rw [lastPlace, lastPlace, heq]
    have hunit : (0 : ℚ) < 10 ^ b.lastPlace := by positivity
    have hbelowA : (0 : ℚ) < a.digitsBelow := by exact_mod_cast a.digitsBelow_pos
    have hbelowB : (0 : ℚ) < b.digitsBelow := by exact_mod_cast b.digitsBelow_pos
    rw [abs_value_eq, abs_value_eq, hplace, mul_le_mul_iff_of_pos_right hunit,
      div_le_div_iff₀ hbelowA hbelowB] at h
    rw [abs_value_round, abs_value_round, hplace]
    have hkept := halfEven_mono a.digitsBelow_pos b.digitsBelow_pos (by exact_mod_cast h)
    exact mul_le_mul_of_nonneg_right (by exact_mod_cast hkept) hunit.le
  · exfalso
    have hpow : (10 : ℚ) ^ (b.leadingExponent + 1) ≤ 10 ^ a.leadingExponent :=
      zpow_le_zpow_right₀ (by norm_num) hgt
    exact (h.trans_lt b.abs_value_lt).not_ge (hpow.trans (le_abs_value ha))

theorem value_eq_abs {d : Decimal} (h : d.negative = false) : d.value = |d.value| := by
  rw [abs_value, value_of_nonneg h]

theorem value_eq_neg_abs {d : Decimal} (h : d.negative = true) : d.value = -|d.value| := by
  rw [abs_value, value, if_pos h, neg_mul]

/-- Rounding keeps the order. -/
theorem round_mono {a b : Decimal} (h : a.value ≤ b.value) : a.round.value ≤ b.round.value := by
  cases ha : a.negative with
  | false =>
    have haRound := value_eq_abs (a.round_negative.trans ha)
    rw [value_eq_abs ha] at h
    cases hb : b.negative with
    | false =>
      rw [haRound, value_eq_abs (b.round_negative.trans hb)]
      exact abs_round_mono (h.trans (le_abs_self _))
    | true =>
      -- A number with the sign that is not above one without it: both are zero.
      rw [value_eq_neg_abs hb] at h
      have haZero : |a.value| = 0 := by linarith [abs_nonneg a.value, abs_nonneg b.value]
      have hbZero : |b.value| = 0 := by linarith [abs_nonneg a.value, abs_nonneg b.value]
      rw [value_round_of_zero (abs_eq_zero.1 haZero), value_round_of_zero (abs_eq_zero.1 hbZero)]
  | true =>
    have haRound := value_eq_neg_abs (a.round_negative.trans ha)
    rw [value_eq_neg_abs ha] at h
    cases hb : b.negative with
    | false =>
      rw [haRound, value_eq_abs (b.round_negative.trans hb)]
      linarith [abs_nonneg a.round.value, abs_nonneg b.round.value]
    | true =>
      rw [value_eq_neg_abs hb] at h
      rw [haRound, value_eq_neg_abs (b.round_negative.trans hb)]
      exact neg_le_neg (abs_round_mono (neg_le_neg_iff.1 h))

/-- A rounded decimal has at most 28 digits. -/
theorem coefficient_round_lt (d : Decimal) : d.round.coefficient < 10 ^ 28 := by
  have hprecision : precision = 28 := rfl
  unfold round
  dsimp only
  split_ifs with hsurplus hcarry
  · exact d.coefficient_lt.trans_le (Nat.pow_le_pow_right (by decide) (by omega))
  · exact Nat.pow_lt_pow_right (by decide) (by decide)
  · have hle := halfEven_le d.digitsBelow_pos d.digitsAbove_le
    rw [digitsAbove_of_le (by omega)] at hle
    exact lt_of_le_of_ne hle hcarry

/-- Rounding to a double keeps the order. -/
theorem toBinary64_mono {a b : Decimal} (h : a.value ≤ b.value) : a.toBinary64 ≤ b.toBinary64 := by
  have ha := a.isRounded_toBinary64
  have hb := b.isRounded_toBinary64
  exact ha.le hb h

/-! ## Sums -/

theorem coefficient_add_lt (a b : Decimal) : (a + b).coefficient < 10 ^ 28 := by
  rw [add_eq]
  exact coefficient_round_lt _

theorem add_mono {a b a' b' : Decimal} (h : a.value + b.value ≤ a'.value + b'.value) :
    (a + b).value ≤ (a' + b').value := by
  rw [add_eq, add_eq]
  refine round_mono ?_
  rwa [value_exactSum, value_exactSum]

/-- A term that is not negative makes no decimal of at most 28 digits smaller. -/
theorem le_add {a b : Decimal} (ha : a.coefficient < 10 ^ 28) (hb : 0 ≤ b.value) :
    a.value ≤ (a + b).value := by
  have hmono : a.round.value ≤ (exactSum a b).round.value := by
    refine round_mono ?_
    rw [value_exactSum]
    linarith
  rwa [round_eq_self ha, ← add_eq] at hmono

end Decimal

end KineticText
