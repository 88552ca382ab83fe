import KineticText.Proofs.Number.Shortest

/-!
# The written decimal

`Binary64.writtenDecimal` is the shortest decimal of a double, with a zero
behind the point of a whole number.  This module shows that it reads back
(`toBinary64_writtenDecimal`) and that it has at most 28 digits, so that the
rounding inside `Decimal.normalize` never changes it (`value_normalize`).

There are three groups: the written decimal, decimals of at most 28 digits,
and the seconds of a quantity.
-/

namespace KineticText

/-! ## The written decimal -/

namespace Binary64

/-- A zero behind the point does not change the number. -/
theorem abs_value_append_zero (negative : Bool) (digits : ℕ) {e : ℤ} (he : 0 ≤ e) :
    |(⟨negative, digits * tenPow (e.toNat + 1), -1⟩ : Decimal).value| =
      |(⟨negative, digits, e⟩ : Decimal).value| := by
  obtain ⟨k, rfl⟩ := Int.eq_ofNat_of_zero_le he
  simp only [Decimal.abs_value, Nat.cast_mul, cast_tenPow,
    Int.toNat_natCast, zpow_natCast, pow_succ]
  norm_num
  ring

theorem writtenDecimal_negative (negative : Bool) (m : Magnitude) :
    (writtenDecimal negative m).negative = negative := by
  unfold writtenDecimal
  split_ifs
  · rfl
  · dsimp only
    split_ifs <;> rfl

theorem writtenDecimal_of_rank_eq_zero (negative : Bool) {m : Magnitude} (h : m.rank = 0) :
    writtenDecimal negative m = ⟨negative, 0, -1⟩ := if_pos h

/-- Other than for zero, the written decimal is the shortest one. -/
theorem abs_value_writtenDecimal (negative : Bool) {m : Magnitude} (h : 0 < m.rank) :
    |(writtenDecimal negative m).value| = (shortest m.rank).1 * 10 ^ (shortest m.rank).2 := by
  rw [writtenDecimal, if_neg h.ne']
  dsimp only
  split_ifs with hplain
  · rw [Bool.and_eq_true, decide_eq_true_eq] at hplain
    rw [abs_value_append_zero _ _ hplain.2, Decimal.abs_value]
  · rw [Decimal.abs_value]

/-- The magnitude nearest to the written decimal is the one written. -/
theorem isNearestRank_writtenDecimal (negative : Bool) (m : Magnitude) :
    IsNearestRank |(writtenDecimal negative m).value| m.rank := by
  rcases Nat.eq_zero_or_pos m.rank with hzero | hpos
  · rw [writtenDecimal_of_rank_eq_zero negative hzero, hzero, Decimal.abs_value, Nat.cast_zero,
      zero_mul]
    simpa using isNearestRank_magnitudeAt 0
  · rw [abs_value_writtenDecimal negative hpos]
    exact isNearestRank_of_inInterval (shortest_inInterval hpos m.rank_lt)

theorem toBinary64_writtenDecimal (negative : Bool) (m : Magnitude) :
    (writtenDecimal negative m).toBinary64 = finite negative m := by
  rw [Decimal.toBinary64_of_isNearestRank (isNearestRank_writtenDecimal negative m),
    writtenDecimal_negative, ofRank_rank]

theorem writtenDecimal_coefficient_lt (negative : Bool) (m : Magnitude) :
    (writtenDecimal negative m).coefficient < 10 ^ 28 := by
  unfold writtenDecimal
  split_ifs with hzero
  · norm_num
  · have hdigits := shortest_lt (Nat.pos_of_ne_zero hzero) m.rank_lt
    dsimp only
    split_ifs with hplain
    · -- A whole number in plain form has at most sixteen digits and one zero.
      simp only [writtenPlainly, Bool.and_eq_true, decide_eq_true_eq] at hplain
      obtain ⟨⟨-, hlead⟩, he⟩ := hplain
      have habs := abs_value_append_zero negative (shortest m.rank).1 he
      have hlt := Decimal.abs_value_lt ⟨negative, (shortest m.rank).1, (shortest m.rank).2⟩
      have hpow : (10 : ℚ) ^ (Decimal.leadingExponent
          ⟨negative, (shortest m.rank).1, (shortest m.rank).2⟩ + 1) ≤ 10 ^ (16 : ℤ) :=
        zpow_le_zpow_right₀ (by norm_num) (by omega)
      rw [← habs, Decimal.abs_value] at hlt
      have hcoefficient : (((shortest m.rank).1 * tenPow ((shortest m.rank).2.toNat + 1) : ℕ) : ℚ)
          < 10 ^ 28 := by
        norm_num at hlt hpow ⊢
        linarith
      exact_mod_cast hcoefficient
    · exact hdigits.trans (by norm_num)

end Binary64

/-! ## Decimals of at most 28 digits -/

namespace Decimal

theorem round_eq_self {d : Decimal} (h : d.coefficient < 10 ^ 28) : d.round = d := by
  have hcount : d.digitCount ≤ precision := digitCount_le (by decide) h
  unfold round
  simp [Nat.sub_eq_zero_of_le hcount]

theorem dropZeros_value (fuel c : ℕ) (e : ℤ) :
    ((dropZeros fuel c e).1 : ℚ) * 10 ^ (dropZeros fuel c e).2 = c * 10 ^ e := by
  induction fuel generalizing c e with
  | zero => rfl
  | succ fuel ih =>
    unfold dropZeros
    split_ifs with hlast
    · have hc : (c : ℚ) = (c / 10 : ℕ) * 10 := by
        have : c = c / 10 * 10 := by omega
        exact_mod_cast this
      rw [ih, zpow_add_one₀ (by norm_num), hc]
      ring
    · rfl

theorem normalize_negative {d : Decimal} (h : d.coefficient < 10 ^ 28) :
    d.normalize.negative = d.negative := by
  rw [normalize, round_eq_self h]
  dsimp only
  split_ifs <;> rfl

/-- A decimal of at most 28 digits stays the same number without the zeros at
its end. -/
theorem value_normalize {d : Decimal} (h : d.coefficient < 10 ^ 28) :
    d.normalize.value = d.value := by
  rw [normalize, round_eq_self h]
  dsimp only
  split_ifs with hzero
  · simp [value, hzero]
  · exact value_congr rfl (dropZeros_value d.digitCount d.coefficient d.exponent)

end Decimal

/-! ## The seconds of a quantity -/

/-- The seconds of a quantity in range have at most 28 digits. -/
theorem Quantity.toDecimal?_coefficient_lt {q : Quantity} {d : Decimal}
    (h : q.toDecimal? = some d) (hsmall : |d.value| < 10 ^ 28) : d.coefficient < 10 ^ 28 := by
  cases q with
  | whole value =>
    simp only [toDecimal?, Option.some.injEq] at h
    subst h
    rw [Decimal.abs_value] at hsmall
    simp only [Decimal.ofInt, zpow_zero, mul_one] at hsmall ⊢
    exact_mod_cast hsmall
  | real value =>
    cases value with
    | finite negative m =>
      simp only [toDecimal?, Binary64.toDecimal?, Option.some.injEq] at h
      subst h
      exact Binary64.writtenDecimal_coefficient_lt negative m
    | infinity => simp [toDecimal?, Binary64.toDecimal?] at h
    | nan => simp [toDecimal?, Binary64.toDecimal?] at h
  | truth value => simp [toDecimal?] at h

theorem Decimal.toBinary64_ofInt (i : ℤ) : (ofInt i).toBinary64 = Binary64.ofInt i := by
  have hrank := isNearestRank_natCast i.natAbs
  rw [Nat.cast_natAbs, Int.cast_abs, ← value_ofInt] at hrank
  exact toBinary64_of_isNearestRank hrank

theorem Quantity.toBinary64_toDecimal? {q : Quantity} {d : Decimal}
    (h : q.toDecimal? = some d) : d.toBinary64 = q.toBinary64 := by
  cases q with
  | whole value =>
    simp only [toDecimal?, Option.some.injEq] at h
    rw [← h, toBinary64, Decimal.toBinary64_ofInt]
  | real value =>
    cases value with
    | finite negative m =>
      simp only [toDecimal?, Binary64.toDecimal?, Option.some.injEq] at h
      rw [← h, toBinary64, Binary64.toBinary64_writtenDecimal]
    | infinity => simp [toDecimal?, Binary64.toDecimal?] at h
    | nan => simp [toDecimal?, Binary64.toDecimal?] at h
  | truth value => simp [toDecimal?] at h

end KineticText
