import KineticText.Number.Power
import Mathlib.Algebra.Order.Field.Power
import Mathlib.Tactic

/-!
# Powers of two and of ten

The estimate `30103 / 100000` of the logarithm of two is good enough to compare
all powers that occur in doubles and their decimals: `twoPow_lt_tenPow` from
above, `tenPow_le_twoPow` from below.
-/

namespace KineticText

@[simp] theorem cast_twoPow (n : ℕ) : ((twoPow n : ℕ) : ℚ) = 2 ^ n := by
  rw [twoPow, Nat.pow_eq, Nat.cast_pow, Nat.cast_ofNat]

@[simp] theorem cast_tenPow (n : ℕ) : ((tenPow n : ℕ) : ℚ) = 10 ^ n := by
  rw [tenPow, Nat.pow_eq, Nat.cast_pow, Nat.cast_ofNat]

theorem twoPow_add (m n : ℕ) : twoPow (m + n) = twoPow m * twoPow n := pow_add 2 m n

theorem twoPow_mono {m n : ℕ} (h : m ≤ n) : twoPow m ≤ twoPow n :=
  Nat.pow_le_pow_right (by decide) h

theorem tenPow_mono {m n : ℕ} (h : m ≤ n) : tenPow m ≤ tenPow n :=
  Nat.pow_le_pow_right (by decide) h

theorem log2_lt_of_lt_twoPow {n k : ℕ} (hn : n ≠ 0) (h : n < twoPow k) : n.log2 < k :=
  (Nat.log2_lt hn).2 h

/-- The power of ten that the estimate is read off. -/
theorem tenPow_30103_between : 2 ^ 100000 ≤ 10 ^ 30103 ∧ 10 ^ 30103 ≤ 2 ^ 100001 := by
  decide +kernel

/-- `100000` binary digits are fewer than `30103` decimal ones. -/
theorem twoPow_lt_tenPow (m : ℕ) : twoPow m < tenPow (m * 30103 / 100000 + 1) := by
  obtain ⟨hbase, -⟩ := tenPow_30103_between
  show 2 ^ m < 10 ^ (m * 30103 / 100000 + 1)
  refine (Nat.pow_lt_pow_iff_left (show 100000 ≠ 0 by decide)).1 ?_
  calc (2 ^ m) ^ 100000 = (2 ^ 100000) ^ m := by rw [← pow_mul, ← pow_mul, mul_comm]
    _ ≤ (10 ^ 30103) ^ m := Nat.pow_le_pow_left hbase m
    _ = 10 ^ (m * 30103) := by rw [← pow_mul, mul_comm]
    _ < 10 ^ ((m * 30103 / 100000 + 1) * 100000) :=
      Nat.pow_lt_pow_right (by decide) (by omega)
    _ = (10 ^ (m * 30103 / 100000 + 1)) ^ 100000 := by rw [← pow_mul]

/-- The estimate from below, good for as many digits as a double has. -/
theorem tenPow_le_twoPow {m : ℕ} (hm : m ≤ 100000) :
    tenPow (m * 30103 / 100000) ≤ twoPow (m + 1) := by
  obtain ⟨-, hbase⟩ := tenPow_30103_between
  show 10 ^ (m * 30103 / 100000) ≤ 2 ^ (m + 1)
  refine (Nat.pow_le_pow_iff_left (show 100000 ≠ 0 by decide)).1 ?_
  calc (10 ^ (m * 30103 / 100000)) ^ 100000 = 10 ^ (m * 30103 / 100000 * 100000) := by
        rw [← pow_mul]
    _ ≤ 10 ^ (m * 30103) := Nat.pow_le_pow_right (by decide) (Nat.div_mul_le_self _ _)
    _ = (10 ^ 30103) ^ m := by rw [← pow_mul, mul_comm]
    _ ≤ (2 ^ 100001) ^ m := Nat.pow_le_pow_left hbase m
    _ = 2 ^ (100001 * m) := by rw [← pow_mul]
    _ ≤ 2 ^ ((m + 1) * 100000) := Nat.pow_le_pow_right (by decide) (by omega)
    _ = (2 ^ (m + 1)) ^ 100000 := by rw [← pow_mul]

/-- The least positive double is a number of the 324th place behind the point. -/
theorem tenPow_lt_twoPow : tenPow 323 < twoPow 1074 := by decide +kernel

end KineticText
