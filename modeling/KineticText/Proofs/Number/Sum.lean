import KineticText.Proofs.Number.Exact

/-!
# Exact sums

A sum of decimals is rounded to 28 significant digits.  Nothing is lost where
the digits of the exact sum lie between the places before and behind the point
that 28 digits can cover (`round_value`, `value_add`).

`StandsFor` says that a decimal is a number and shows its sign; a zero shows
none.  Sums and maxima of such decimals stand for the sums and maxima of their
numbers, and the double of such a decimal is the one nearest to its number.
-/

namespace KineticText

/-! ## Places behind the point -/

/-- The number has at most `p` places behind the point. -/
def HasPlaces (p : ℕ) (q : ℚ) : Prop := ∃ n : ℤ, q * 10 ^ p = n

theorem HasPlaces.intCast (p : ℕ) (n : ℤ) : HasPlaces p n := ⟨n * 10 ^ p, by push_cast; rfl⟩

theorem HasPlaces.add {p : ℕ} {a b : ℚ} (ha : HasPlaces p a) (hb : HasPlaces p b) :
    HasPlaces p (a + b) := by
  obtain ⟨m, hm⟩ := ha
  obtain ⟨n, hn⟩ := hb
  exact ⟨m + n, by rw [add_mul, hm, hn, Int.cast_add]⟩

/-- The number has at most `p` places behind the point and at most `28 - p`
before it. -/
structure Fits (p : ℕ) (q : ℚ) : Prop where
  places : HasPlaces p q
  bound : |q| < 10 ^ (28 - (p : ℤ))

namespace Decimal

/-! ## Rounding -/

theorem round_negative (d : Decimal) : d.round.negative = d.negative := by
  unfold round
  dsimp only
  split_ifs <;> rfl

/-- The digits that rounding takes off a number that fits are zeros. -/
theorem tenPow_surplus_dvd {p : ℕ} {d : Decimal} (h : Fits p d.value)
    (hsurplus : d.digitCount - precision ≠ 0) :
    tenPow (d.digitCount - precision) ∣ d.coefficient := by
  have hprecision : precision = 28 := rfl
  have hcoefficient : d.coefficient ≠ 0 := by
    intro hzero
    have hone := digitCount_le (d := d) (k := 1) (by decide) (by rw [hzero]; decide)
    omega
  -- The last digit that is kept does not lie behind the `p`-th place.
  have hexponent : d.exponent + (d.digitCount - precision : ℕ) ≤ -(p : ℤ) := by
    have hlt := (zpow_lt_zpow_iff_right₀ (by norm_num)).1
      ((le_abs_value hcoefficient).trans_lt h.bound)
    rw [leadingExponent] at hlt
    omega
  obtain ⟨n, hn⟩ := h.places
  obtain ⟨j, hj⟩ : ∃ j : ℕ, d.exponent + p + ((d.digitCount - precision : ℕ) + j : ℕ) = 0 :=
    ⟨(-(d.exponent + p + (d.digitCount - precision : ℕ))).toNat, by omega⟩
  have habs : (n.natAbs : ℚ) = d.coefficient * 10 ^ d.exponent * 10 ^ p := by
    rw [Nat.cast_natAbs, Int.cast_abs, ← hn, abs_mul, abs_value, abs_of_pos (by positivity)]
  have hcast : (d.coefficient : ℚ) = n.natAbs * 10 ^ (d.digitCount - precision + j) := by
    rw [habs, mul_assoc, mul_assoc, ← zpow_natCast, ← zpow_natCast, ← zpow_add₀ (by norm_num),
      ← zpow_add₀ (by norm_num), ← add_assoc, hj, zpow_zero, mul_one]
  have heq : d.coefficient = n.natAbs * (tenPow (d.digitCount - precision) * tenPow j) := by
    rw [← @Nat.cast_inj ℚ, hcast, pow_add, Nat.cast_mul, Nat.cast_mul, cast_tenPow, cast_tenPow]
  rw [heq]
  exact (dvd_mul_right _ _).mul_left _

/-- A number that fits is not changed by rounding. -/
theorem round_value {p : ℕ} {d : Decimal} (h : Fits p d.value) : d.round.value = d.value := by
  refine value_congr d.round_negative ?_
  unfold round
  dsimp only
  split_ifs with hsurplus hcarry
  · rfl
  all_goals
    obtain ⟨q, hq⟩ := tenPow_surplus_dvd h hsurplus
    have hkept : halfEven d.coefficient (tenPow (d.digitCount - precision)) = q := by
      rw [hq, mul_comm, halfEven_mul q (tenPow_pos _)]
    have hpow : (d.coefficient : ℚ) * 10 ^ d.exponent =
        q * 10 ^ (d.exponent + (d.digitCount - precision : ℕ)) := by
      rw [hq, Nat.cast_mul, cast_tenPow, zpow_add₀ (by norm_num), zpow_natCast]
      ring
    rw [hpow]
  · have hten : (q : ℚ) = 10 ^ (precision - 1) * 10 := by
      rw [← hkept, hcarry, cast_tenPow, ← pow_succ]
      rfl
    rw [hten, zpow_add_one₀ (by norm_num), cast_tenPow]
    ring
  · rw [hkept]

/-! ## Sums -/

/-- The sum before it is rounded. -/
def exactSum (a b : Decimal) : Decimal :=
  let e := min a.exponent b.exponent
  let sum := a.scaledTo e + b.scaledTo e
  ⟨if sum = 0 then a.negative && b.negative else sum < 0, sum.natAbs, e⟩

theorem add_eq (a b : Decimal) : a + b = (exactSum a b).round := by
  show a.add b = _
  rw [add, exactSum]

/-- The coefficient of the sum at the smaller exponent stands for the sum. -/
theorem scaledTo_add_mul (a b : Decimal) :
    ((a.scaledTo (min a.exponent b.exponent) + b.scaledTo (min a.exponent b.exponent) : ℤ) : ℚ) *
      10 ^ min a.exponent b.exponent = a.value + b.value := by
  rw [Int.cast_add, add_mul, scaledTo_mul a (min_le_left _ _), scaledTo_mul b (min_le_right _ _)]

theorem value_exactSum (a b : Decimal) : (exactSum a b).value = a.value + b.value := by
  rw [← scaledTo_add_mul, exactSum, value]
  dsimp only
  generalize a.scaledTo _ + b.scaledTo _ = sum
  congr 1
  rcases lt_trichotomy sum 0 with h | rfl | h
  · simp [h, h.ne, Nat.cast_natAbs, abs_of_neg h]
  · simp
  · simp [h.ne', not_lt.2 h.le, Nat.cast_natAbs, abs_of_pos h]

/-- A sum that fits is exact. -/
theorem value_add {p : ℕ} {a b : Decimal} (h : Fits p (a.value + b.value)) :
    (a + b).value = a.value + b.value := by
  rw [← value_exactSum] at h ⊢
  rw [add_eq, round_value h]

/-- The decimal is the number, and its sign is that of the number. -/
structure StandsFor (q : ℚ) (d : Decimal) : Prop where
  value_eq : d.value = q
  negative_eq : d.negative = decide (q < 0)

theorem standsFor_of_pos {d : Decimal} (h : 0 < d.value) : StandsFor d.value d :=
  ⟨rfl, by simp [negative_eq_false_of_pos h, h.le]⟩

theorem standsFor_ofInt (i : ℤ) : StandsFor i (ofInt i) :=
  ⟨value_ofInt i, by simp [ofInt]⟩

theorem StandsFor.isNearest {q : ℚ} {d : Decimal} (h : StandsFor q d) :
    Binary64.IsNearest q d.toBinary64 := by
  rw [← h.value_eq]
  exact isNearest_toBinary64 (by rw [h.negative_eq, h.value_eq])

theorem StandsFor.negative_exactSum {q : ℚ} {x : Decimal} (hx : StandsFor q x) (y : Decimal) :
    (exactSum x y).negative = decide (q + y.value < 0) := by
  have hpow : (0 : ℚ) < 10 ^ min x.exponent y.exponent := by positivity
  have hsum := scaledTo_add_mul x y
  rw [hx.value_eq] at hsum
  rw [exactSum, hx.negative_eq]
  dsimp only
  generalize x.scaledTo _ + y.scaledTo _ = sum at hsum ⊢
  split_ifs with hzero
  · -- One of two numbers whose sum is zero shows no sign.
    rw [hzero, Int.cast_zero, zero_mul] at hsum
    rw [← hsum, decide_eq_false (lt_irrefl 0), Bool.and_eq_false_iff, decide_eq_false_iff_not]
    rcases lt_or_ge q 0 with hq | hq
    · exact .inr (negative_eq_false_of_pos (by linarith))
    · exact .inl hq.not_gt
  · rw [← hsum, decide_eq_decide, ← @Int.cast_lt_zero ℚ, ← mul_lt_mul_iff_of_pos_right hpow,
      zero_mul]

theorem StandsFor.add {p : ℕ} {q : ℚ} {x y : Decimal} (hx : StandsFor q x)
    (h : Fits p (q + y.value)) : StandsFor (q + y.value) (x + y) where
  value_eq := by
    rw [← hx.value_eq] at h ⊢
    exact value_add h
  negative_eq := by rw [add_eq, round_negative, hx.negative_exactSum]

theorem StandsFor.larger {a b : ℚ} {x y : Decimal} (hx : StandsFor a x) (hy : StandsFor b y) :
    StandsFor (max a b) (x.larger y) := by
  rw [Decimal.larger]
  split_ifs with h
  · rw [lt_iff_value, hx.value_eq, hy.value_eq] at h
    rwa [max_eq_right h.le]
  · rw [lt_iff_value, hx.value_eq, hy.value_eq, not_lt] at h
    rwa [max_eq_left h]

end Decimal

end KineticText
