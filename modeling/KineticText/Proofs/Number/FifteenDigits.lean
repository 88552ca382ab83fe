import KineticText.Proofs.Number.Rounded
import KineticText.Proofs.Number.Written

/-!
# Fifteen digits

A number of at most fifteen digits survives as a double: the shortest decimal
of the double nearest to it is the number itself (`shortest_value`,
`Decimal.exists_toDecimal?_toBinary64`).  The doubles around such a number lie
closer together than the numbers of fifteen digits, so no other one of these is
in the interval of the double; and the search for the shortest decimal stops at
the grid of the number or at a coarser one, which is a part of it.

Doubles are that close down to the place `10 ^ -323`; the least of them lies
behind it.

There are three groups: points of a grid, the search, and decimals.
-/

namespace KineticText

open Binary64

variable {rank m n : ℕ} {e : ℤ} {p q : ℚ}

/-! ## Points of a grid -/

theorem InInterval.bounds (h : InInterval rank q) :
    magnitudeAt (rank - 1) + magnitudeAt rank ≤ 2 * q ∧
      2 * q ≤ magnitudeAt rank + magnitudeAt (rank + 1) := by
  unfold InInterval at h
  split_ifs at h
  · exact h
  · exact ⟨h.1.le, h.2.le⟩

/-- What lies between the magnitude and a number of its interval is in the
interval. -/
theorem InInterval.between (hrank : 0 < rank) (h : InInterval rank q)
    (hp : (q ≤ p ∧ p ≤ magnitudeAt rank) ∨ (magnitudeAt rank ≤ p ∧ p ≤ q)) :
    InInterval rank p := by
  have hbelow : magnitudeAt (rank - 1) < magnitudeAt rank := magnitudeAt_strictMono (by omega)
  have habove : magnitudeAt rank < magnitudeAt (rank + 1) := magnitudeAt_strictMono (by omega)
  unfold InInterval at h ⊢
  rcases hp with ⟨hqp, hpm⟩ | ⟨hmp, hpq⟩
  · split_ifs at h ⊢ <;> constructor <;> linarith
  · split_ifs at h ⊢ <;> constructor <;> linarith

/-- Two numbers of an interval are not further apart than the magnitude and the
next one. -/
theorem InInterval.sub_le (hrank : 0 < rank) (hp : InInterval rank p) (hq : InInterval rank q) :
    p - q ≤ magnitudeAt (rank + 1) - magnitudeAt rank := by
  have hgap := magnitudeAt_gap hrank
  have hlow := hq.bounds.1
  have hhigh := hp.bounds.2
  linarith

/-- A grid with a point in the interval has a hit. -/
theorem isSome_gridHit? (hrank : 0 < rank) (h : InInterval rank (n * 10 ^ e)) :
    (gridHit? rank e).isSome := by
  have hpow : (0 : ℚ) < 10 ^ e := by positivity
  obtain ⟨hbelow, habove⟩ := digitsBelow_between rank e
  -- One of the two points beside the magnitude lies between it and the given one.
  have hread : readsBack rank (digitsBelow rank e) e = true ∨
      readsBack rank (digitsBelow rank e + 1) e = true := by
    rw [readsBack_iff, readsBack_iff]
    rcases Nat.lt_or_ge (digitsBelow rank e) n with hlt | hle
    · have hpoint : ((digitsBelow rank e + 1 : ℕ) : ℚ) ≤ n := Nat.cast_le.2 hlt
      exact .inr (h.between hrank (.inr ⟨habove, mul_le_mul_of_nonneg_right hpoint hpow.le⟩))
    · have hpoint : (n : ℚ) ≤ digitsBelow rank e := Nat.cast_le.2 hle
      exact .inl (h.between hrank (.inl ⟨mul_le_mul_of_nonneg_right hpoint hpow.le, hbelow⟩))
  have hother : otherDigits rank e =
      if nearestDigits rank e = digitsBelow rank e then digitsBelow rank e + 1
      else digitsBelow rank e := rfl
  rw [gridHit?, hother]
  rcases nearestDigits_eq_or rank e with hnear | hnear <;> rw [hnear] <;>
    rcases hread with hread | hread <;> simp [hread] <;> split_ifs <;> rfl

theorem magnitudeAt_one_lt : magnitudeAt 1 < 10 ^ (-323 : ℤ) := by
  rw [magnitudeAt_one, zpow_neg, show (323 : ℤ) = (323 : ℕ) from rfl, zpow_natCast, one_div,
    inv_lt_inv₀ (by positivity) (by positivity), ← cast_tenPow, ← cast_twoPow, Nat.cast_lt]
  exact tenPow_lt_twoPow

/-- The doubles around a number of fifteen digits are closer together than its
last digit. -/
theorem gap_lt_of_inInterval (hn : n < 10 ^ 15) (he : -323 ≤ e) (h : InInterval rank (n * 10 ^ e)) :
    magnitudeAt (rank + 1) - magnitudeAt rank < 10 ^ e := by
  have hpow : (0 : ℚ) < 10 ^ e := by positivity
  rcases magnitudeAt_succ_cases rank with hunit | hpart
  · have hleast := magnitudeAt_one_lt
    have hgrid : (10 : ℚ) ^ (-323 : ℤ) ≤ 10 ^ e := zpow_le_zpow_right₀ (by norm_num) he
    linarith
  · have hdigits : (n : ℚ) * 10 ^ e < 10 ^ 15 * 10 ^ e := by
      apply mul_lt_mul_of_pos_right _ hpow
      exact_mod_cast hn
    have hlow := h.bounds.1
    have hnonneg := magnitudeAt_nonneg (rank - 1)
    linarith

theorem tenPow_le_point (hn : n ≠ 0) (e : ℤ) : (10 : ℚ) ^ e ≤ n * 10 ^ e := by
  have hdigits : (1 : ℚ) ≤ n := by exact_mod_cast Nat.pos_of_ne_zero hn
  exact le_mul_of_one_le_left (by positivity) hdigits

/-- Two points of a grid in one interval are the same. -/
theorem eq_of_inInterval (hrank : 0 < rank) (hm : InInterval rank (m * 10 ^ e))
    (hn : InInterval rank (n * 10 ^ e))
    (hgap : magnitudeAt (rank + 1) - magnitudeAt rank < 10 ^ e) : m = n := by
  have hpow : (0 : ℚ) < 10 ^ e := by positivity
  have hnot {a b : ℕ} (ha : InInterval rank (a * 10 ^ e)) (hb : InInterval rank (b * 10 ^ e)) :
      ¬a < b := by
    intro hlt
    have hstep : (a + 1 : ℚ) * 10 ^ e ≤ b * 10 ^ e :=
      mul_le_mul_of_nonneg_right (by exact_mod_cast hlt) hpow.le
    have hclose := hb.sub_le hrank ha
    linarith
  exact Nat.le_antisymm (not_lt.1 (hnot hn hm)) (not_lt.1 (hnot hm hn))

/-! ## The search -/

/-- No grid with a point in the interval is coarser than the first one tried. -/
theorem le_coarsestExponent (hrank : 0 < rank) (h : InInterval rank (n * 10 ^ e)) :
    e ≤ coarsestExponent rank := by
  by_contra hlt
  have hpow : (0 : ℚ) < 10 ^ (coarsestExponent rank - (20 : ℕ)) := by positivity
  have hn : n ≠ 0 := by
    rintro rfl
    have hlow := h.bounds.1
    have hpos := magnitudeAt_strictMono hrank
    have hnonneg := magnitudeAt_nonneg (rank - 1)
    rw [Nat.cast_zero, zero_mul] at hlow
    rw [magnitudeAt_zero] at hpos
    linarith
  have hstep : (10 : ℚ) ^ 21 * 10 ^ (coarsestExponent rank - (20 : ℕ)) ≤ 10 ^ e := by
    rw [← zpow_natCast, ← zpow_add₀ (by norm_num)]
    exact zpow_le_zpow_right₀ (by norm_num) (by push_cast; omega)
  have hpoint := tenPow_le_point hn e
  have hfine := magnitudeAt_lt_fineGrid rank
  have hgap := magnitudeAt_gap hrank
  have hhigh := h.bounds.2
  have hnext := magnitudeAt_succ_le rank
  have hone := magnitudeAt_strictMono.monotone (show 1 ≤ rank from hrank)
  linarith

/-- The search stops at every grid that has a point in the interval, if not
before. -/
theorem le_shortest_exponent (hrank : 0 < rank) (hlimit : rank < rankLimit)
    (h : InInterval rank (n * 10 ^ e)) : e ≤ (shortest rank).2 := by
  have hcoarse := le_coarsestExponent hrank h
  have hfine := (shortest_isHit hrank hlimit).2
  obtain ⟨k, rfl⟩ : ∃ k : ℕ, e = coarsestExponent rank - k :=
    ⟨(coarsestExponent rank - e).toNat, by omega⟩
  rcases Nat.lt_or_ge k 20 with hk | hk
  · exact (firstHit_isHit hk (isSome_gridHit? hrank h)).2
  · omega

/-- The shortest decimal of the double nearest to a number of fifteen digits is
that number. -/
theorem shortest_value (hrank : 0 < rank) (hlimit : rank < rankLimit) (hn : n < 10 ^ 15)
    (he : -323 ≤ e) (h : InInterval rank (n * 10 ^ e)) :
    ((shortest rank).1 : ℚ) * 10 ^ (shortest rank).2 = n * 10 ^ e := by
  obtain ⟨k, hk⟩ : ∃ k : ℕ, (shortest rank).2 = k + e :=
    ⟨((shortest rank).2 - e).toNat, by have := le_shortest_exponent hrank hlimit h; omega⟩
  -- A point of a coarser grid is one of the finer grid, too.
  have hsplit : ((shortest rank).1 : ℚ) * 10 ^ (shortest rank).2 =
      ((shortest rank).1 * 10 ^ k : ℕ) * 10 ^ e := by
    rw [hk, zpow_add₀ (by norm_num), zpow_natCast]
    push_cast
    ring
  have hshortest := shortest_inInterval hrank hlimit
  rw [hsplit] at hshortest ⊢
  rw [eq_of_inInterval hrank hshortest h (gap_lt_of_inInterval hn he h)]

/-! ## Decimals -/

/-- No such number but zero is nearest to zero. -/
theorem eq_zero_of_isNearestRank_zero (he : -323 ≤ e) (h : IsNearestRank (n * 10 ^ e) 0) :
    n = 0 := by
  by_contra hn
  have hpoint := tenPow_le_point hn e
  have hgrid : (10 : ℚ) ^ (-323 : ℤ) ≤ 10 ^ e := zpow_le_zpow_right₀ (by norm_num) he
  have hleast := magnitudeAt_one_lt
  have hhigh : 2 * (n * 10 ^ e) ≤ magnitudeAt 0 + magnitudeAt 1 := h.two_mul_le
  have hpow : (0 : ℚ) < 10 ^ e := by positivity
  rw [magnitudeAt_zero] at hhigh
  linarith

/-- A number of at most fifteen digits, the last of them not behind the place
323, is the decimal of its own double. -/
theorem Decimal.exists_toDecimal?_toBinary64 {d : Decimal} (hn : n < 10 ^ 15) (he : -323 ≤ e)
    (hvalue : |d.value| = n * 10 ^ e) (hfinite : d.toBinary64.isFinite = true) :
    ∃ d', d.toBinary64.toDecimal? = some d' ∧ d'.value = d.value := by
  obtain ⟨rank, hrank, hd⟩ := d.toBinary64_eq
  have hlimit : rank < rankLimit := by
    by_contra hnot
    rw [hd, ofRank, dif_neg hnot] at hfinite
    cases hfinite
  rw [hvalue] at hrank
  rw [hd, ofRank, dif_pos hlimit]
  refine ⟨_, rfl, Decimal.value_congr (writtenDecimal_negative ..) ?_⟩
  rw [← Decimal.abs_value, ← Decimal.abs_value, hvalue]
  rcases Nat.eq_zero_or_pos rank with rfl | hpos
  · rw [writtenDecimal_of_rank_eq_zero _ rfl, eq_zero_of_isNearestRank_zero he hrank]
    simp [Decimal.value]
  · rw [abs_value_writtenDecimal _ hpos]
    exact shortest_value hpos hlimit hn he (hrank.inInterval (by positivity))

theorem Decimal.isFinite_toBinary64 {d : Decimal} (hn : n < 2 ^ 53) (h : |d.value| ≤ n) :
    d.toBinary64.isFinite = true := by
  obtain ⟨rank, hrank, hd⟩ := d.toBinary64_eq
  obtain ⟨m, hm⟩ := exists_magnitudeAt_eq hn
  rw [← hm] at h
  have hle := hrank.mono (isNearestRank_magnitudeAt m.rank) h
  rw [hd, ofRank, dif_pos (hle.trans_lt m.rank_lt)]
  rfl

/-- The same with the places behind the point counted. -/
theorem Decimal.exists_toDecimal?_of_hasPlaces {d : Decimal} {p : ℕ} (hp : p ≤ 323)
    (hplaces : HasPlaces p d.value) (hbound : |d.value| * 10 ^ p < 10 ^ 15) :
    ∃ d', d.toBinary64.toDecimal? = some d' ∧ d'.value = d.value := by
  obtain ⟨i, hi⟩ := hplaces
  have hpow : (0 : ℚ) < 10 ^ p := by positivity
  have hscaled : |d.value| * 10 ^ p = i.natAbs := by
    rw [Nat.cast_natAbs, Int.cast_abs, ← hi, abs_mul, abs_of_pos hpow]
  have hvalue : |d.value| = i.natAbs * 10 ^ (-p : ℤ) := by
    rw [← hscaled, zpow_neg, zpow_natCast, mul_assoc, mul_inv_cancel₀ hpow.ne', mul_one]
  have hle : |d.value| ≤ i.natAbs := by
    rw [← hscaled]
    exact le_mul_of_one_le_right (abs_nonneg _) (one_le_pow₀ (by norm_num))
  have hdigits : i.natAbs < 10 ^ 15 := by
    rw [hscaled] at hbound
    exact_mod_cast hbound
  exact exists_toDecimal?_toBinary64 hdigits (by omega) hvalue
    (isFinite_toBinary64 (hdigits.trans (by norm_num)) hle)

end KineticText
