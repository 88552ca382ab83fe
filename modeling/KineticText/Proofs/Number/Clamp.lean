import KineticText.Proofs.Number.Rounded

/-!
# Numbers kept between bounds

A number is kept between bounds by taking the smaller of it and an upper bound,
and the larger of that and a lower one.  With finite bounds the result is
finite, whatever the number is; here the upper bound is a side less an extent
and the lower bound, so that it may be below all numbers
(`Binary64.isFinite_larger_smaller`).

Keeping a number that is not below the lower bound makes it smaller only, so
that a sum with it stays below what it was below
(`Binary64.larger_smaller_add_le`).

There are three groups: numbers that are not negative, differences, and
numbers kept between bounds.
-/

namespace KineticText

namespace Binary64

variable {x y : Binary64}

/-! ## Numbers that are not negative -/

theorem not_lt_zero_iff : ¬x < 0 ↔ x.isNaN = true ∨ 0 ≤ x.key := by
  rw [lt_iff_key, isNaN_zero, key_zero]
  cases x.isNaN <;> simp

/-- A number that is not negative has a positive sign, is a negative zero, or is
undefined. -/
theorem not_lt_zero_cases (h : ¬x < 0) :
    x.isNegative = false ∨ (∃ m : Magnitude, x = finite true m ∧ m.rank = 0) := by
  cases x with
  | nan => exact .inl rfl
  | infinity negative =>
    cases negative with
    | false => exact .inl rfl
    | true => exact absurd infinity_lt_zero h
  | finite negative m =>
    cases negative with
    | false => exact .inl rfl
    | true =>
      refine .inr ⟨m, rfl, ?_⟩
      rcases not_lt_zero_iff.1 h with ⟨⟨⟩⟩ | hkey
      have hrank : (finite true m).key = -m.rank := rfl
      omega

theorem not_lt_zero_of_isNegative (h : x.isNegative = false) : ¬x < 0 := by
  rw [not_lt_zero_iff, key, h]
  exact .inr (Int.natCast_nonneg _)

theorem isNegative_mul (hx : x.isNegative = false) (hy : y.isNegative = false) :
    (x * y).isNegative = false := by
  show (mul x y).isNegative = false
  cases x with
  | nan => rfl
  | infinity a =>
    obtain rfl : a = false := hx
    cases y with
    | nan => rfl
    | infinity b => rw [mul, show b = false from hy]; rfl
    | finite b n =>
      obtain rfl : b = false := hy
      simp only [mul]
      split_ifs <;> rfl
  | finite a m =>
    obtain rfl : a = false := hx
    cases y with
    | nan => rfl
    | infinity b =>
      obtain rfl : b = false := hy
      simp only [mul]
      split_ifs <;> rfl
    | finite b n =>
      obtain rfl : b = false := hy
      simp only [mul, nearest, isNegative_ofRank, Bool.xor_false]

theorem not_ofNat_lt_zero (n : ℕ) : ¬ofInt n < 0 := by
  refine not_lt_zero_of_isNegative ?_
  rw [ofInt, ofFraction, nearest, isNegative_ofRank]
  exact decide_eq_false (Int.natCast_nonneg n).not_gt

protected theorem mul_comm (x y : Binary64) : x * y = y * x := by
  show mul x y = mul y x
  cases x <;> cases y <;> simp only [mul, Bool.xor_comm, Nat.mul_comm]

/-- A zero times a number is a zero, or undefined. -/
theorem not_mul_lt_zero_of_rank {negative : Bool} {m : Magnitude} (hm : m.rank = 0)
    (y : Binary64) : ¬finite negative m * y < 0 := by
  cases y with
  | nan => exact not_lt_zero_of_isNegative rfl
  | infinity b =>
    have hmul : finite negative m * infinity b = nan := if_pos hm
    rw [hmul]
    exact not_lt_zero_of_isNegative rfl
  | finite b n =>
    have hunits : m.units = 0 := by
      rw [Magnitude.units, hm]
      rfl
    have hmul : mul (finite negative m) (finite b n) = nearest (negative ^^ b) 0 (twoPow 1074) := by
      simp only [mul, hunits, Nat.zero_mul]
    show ¬mul (finite negative m) (finite b n) < 0
    rw [hmul, not_lt_zero_iff]
    right
    rw [nearest, nearestRank_zero (twoPow_pos 1074), key_ofRank]
    cases negative ^^ b <;> simp

/-- A product of numbers that are not negative is not negative; that of zero and
an infinity is undefined. -/
theorem not_mul_lt_zero (hx : ¬x < 0) (hy : ¬y < 0) : ¬x * y < 0 := by
  rcases not_lt_zero_cases hx with hx | ⟨m, rfl, hm⟩
  · rcases not_lt_zero_cases hy with hy | ⟨n, rfl, hn⟩
    · exact not_lt_zero_of_isNegative (isNegative_mul hx hy)
    · rw [Binary64.mul_comm]
      exact not_mul_lt_zero_of_rank hn x
  · exact not_mul_lt_zero_of_rank hm y

/-- A product of finite doubles has the rank nearest to the product of their
magnitudes. -/
theorem finite_mul_finite (a b : Bool) (m n : Magnitude) :
    finite a m * finite b n =
      ofRank (a ^^ b) (nearestRank (m.units * n.units) (twoPow 1074)) := by
  show mul (finite a m) (finite b n) = _
  simp only [mul, nearest]

theorem isNearestRank_mul (m n : Magnitude) :
    IsNearestRank (magnitudeAt m.rank * magnitudeAt n.rank)
      (nearestRank (m.units * n.units) (twoPow 1074)) := by
  have hrank := isNearestRank_nearestRank (m.units * n.units) (twoPow_pos 1074)
  rwa [Nat.cast_mul, cast_twoPow, div_div, mul_div_mul_comm] at hrank

/-- A product with a number that is at most one is not beyond all doubles. -/
theorem isFinite_mul (hx : x.isFinite = true) (hy : y.isFinite = true) (h : |y.value| ≤ 1) :
    (x * y).isFinite = true := by
  obtain ⟨a, m, rfl⟩ := exists_finite_of_isFinite hx
  obtain ⟨b, n, rfl⟩ := exists_finite_of_isFinite hy
  have hle : nearestRank (m.units * n.units) (twoPow 1074) ≤ m.rank := by
    refine (isNearestRank_mul m n).mono (isNearestRank_magnitudeAt m.rank) ?_
    have hn : magnitudeAt n.rank ≤ 1 := by
      rw [value_finite] at h
      refine (le_abs_self _).trans ?_
      cases b <;> simpa using h
    exact mul_le_of_le_one_right (magnitudeAt_nonneg _) hn
  rw [finite_mul_finite, ofRank, dif_pos (hle.trans_lt m.rank_lt)]
  rfl

/-! ## Differences -/

theorem value_neg (h : x.isFinite = true) : (-x).value = -x.value := by
  obtain ⟨negative, m, rfl⟩ := exists_finite_of_isFinite h
  have hneg : -finite negative m = finite (!negative) m := rfl
  rw [hneg, value_finite, value_finite]
  cases negative <;> simp

theorem isFinite_neg (h : x.isFinite = true) : (-x).isFinite = true := by
  obtain ⟨negative, m, rfl⟩ := exists_finite_of_isFinite h
  rfl

/-- A difference of finite doubles is rounded once. -/
theorem isRounded_sub (hx : x.isFinite = true) (hy : y.isFinite = true) :
    IsRounded (x.value - y.value) (x - y) := by
  rw [sub_eq_add_neg, ← value_neg hy]
  exact isRounded_add hx (isFinite_neg hy)

/-- What is taken off a number below the upper infinity leaves one below it. -/
theorem sub_lt_infinity (hx : x < infinity false) (hy : 0 ≤ y) : x - y < infinity false := by
  obtain ⟨hxNaN, -, hxKey⟩ := lt_iff_key.1 hx
  obtain ⟨-, hyNaN, hyKey⟩ := le_iff_key.1 hy
  rw [key_zero] at hyKey
  cases y with
  | nan => cases hyNaN
  | infinity negative =>
    cases negative with
    | true => exact absurd hyKey (by decide)
    | false =>
      have hsub : x - infinity false = infinity true := by
        cases x with
        | nan => cases hxNaN
        | finite a m => rfl
        | infinity a =>
          cases a with
          | true => rfl
          | false => exact absurd hxKey (lt_irrefl _)
      rw [hsub]
      exact infinity_lt_infinity
  | finite b n =>
    cases x with
    | nan => cases hxNaN
    | infinity a =>
      cases a with
      | true => exact hx
      | false => exact absurd hxKey (lt_irrefl _)
    | finite a m =>
      have hround := isRounded_sub (Eq.refl (finite a m).isFinite) (Eq.refl (finite b n).isFinite)
      have hvalue : 0 ≤ (finite b n).value := (value_nonneg_iff rfl).2 hyKey
      have hkey := hround.key_mono (isRounded_value (Eq.refl (finite a m).isFinite))
        (by linarith)
      exact lt_iff_key.2 ⟨hround.1, rfl, hkey.trans_lt hxKey⟩

theorem isNaN_sub (hx : x.isNaN = false) (hy : y.isFinite = true) : (x - y).isNaN = false := by
  obtain ⟨b, n, rfl⟩ := exists_finite_of_isFinite hy
  cases x with
  | nan => cases hx
  | infinity a => rfl
  | finite a m => exact (isRounded_sub (Eq.refl (finite a m).isFinite) rfl).1

/-! ## Numbers between bounds -/

/-- A number kept between a finite lower bound and a finite side, less an extent
and the lower bound, is finite. -/
theorem isFinite_larger_smaller {low side extent : Binary64} (hlow : low.isFinite = true)
    (hnonneg : 0 ≤ low) (hside : side.isFinite = true) (hextent : ¬extent < 0)
    (hx : extent.isNaN = true → x.isNaN = true) :
    (low.larger (x.smaller (side - extent - low))).isFinite = true := by
  rw [larger]
  split_ifs with hgreater
  · obtain ⟨-, hnan, hkey⟩ := lt_iff_key.1 hgreater
    have hroom : side - extent - low < infinity false := by
      have hextentNaN : extent.isNaN = false := Bool.eq_false_iff.2 fun h => by
        rw [smaller, if_neg (fun hlt => by simp [hx h, lt_iff_key] at hlt), hx h] at hnan
        cases hnan
      have hextent := le_of_not_lt hextentNaN isNaN_zero hextent
      exact sub_lt_infinity (sub_lt_infinity (lt_infinity hside) hextent) hnonneg
    -- The result is neither infinity: it is above the lower bound and below the upper one.
    have hlimit : x.smaller (side - extent - low) < infinity false := by
      rw [smaller] at hnan ⊢
      split_ifs at hnan ⊢ with hless
      · exact hroom
      · obtain ⟨hroomNaN, -, hroomKey⟩ := lt_iff_key.1 hroom
        exact lt_iff_key.2 ⟨hnan, rfl,
          (le_iff_key.1 (le_of_not_lt hroomNaN hnan hless)).2.2.trans_lt hroomKey⟩
    have hbound := (isFinite_iff.1 hlow).2
    have hlimit : (x.smaller (side - extent - low)).key < rankLimit := (lt_iff_key.1 hlimit).2.2
    exact isFinite_iff.2 ⟨hnan, by omega⟩
  · exact hlow

section Bounds

variable {low limit : Binary64}

theorem le_larger (hlow : low.isNaN = false) (x : Binary64) : low ≤ low.larger x := by
  rw [larger]
  split_ifs with h
  · exact le_of_lt h
  · exact le_refl hlow

/-- The upper bound holds also for a number that is undefined: that one goes to
the lower bound. -/
theorem larger_smaller_le_larger (hlow : low.isNaN = false) (hlimit : limit.isNaN = false)
    (x : Binary64) : low.larger (x.smaller limit) ≤ low.larger limit := by
  by_cases h : low < x.smaller limit
  · have hle : x.smaller limit ≤ limit := by
      obtain ⟨-, hnan, -⟩ := lt_iff_key.1 h
      rw [smaller] at hnan ⊢
      split_ifs at hnan ⊢ with hless
      · exact le_refl hlimit
      · exact le_of_not_lt hlimit hnan hless
    have hlt : low < limit :=
      lt_iff_key.2 ⟨hlow, hlimit, (key_lt_of_lt h).trans_le (le_iff_key.1 hle).2.2⟩
    rw [larger, larger, if_pos h, if_pos hlt]
    exact hle
  · rw [larger, if_neg h]
    exact le_larger hlow limit

/-- Keeping numbers between bounds keeps their order. -/
theorem larger_smaller_mono (hlow : low.isNaN = false) (hlimit : limit.isNaN = false)
    (h : x ≤ y) : low.larger (x.smaller limit) ≤ low.larger (y.smaller limit) := by
  simp only [le_iff_key, lt_iff_key, larger, smaller] at h ⊢
  grind

/-- A number not below the lower bound is made smaller only. -/
theorem larger_smaller_le (h : low ≤ x) : low.larger (x.smaller limit) ≤ x := by
  rw [larger]
  split_ifs
  · rw [smaller]
    split_ifs with hless
    · exact le_of_lt hless
    · exact le_refl (le_iff_key.1 h).2.1
  · exact h

/-- What stays below a bound with a number stays below it when the number is
kept between bounds. -/
theorem larger_smaller_add_le {extent bound : Binary64} (hlow : low.isFinite = true)
    (hextent : extent.isFinite = true) (hbound : bound < infinity false) (h : low ≤ x)
    (hfits : x + extent ≤ bound) : low.larger (x.smaller limit) + extent ≤ bound := by
  obtain ⟨-, hxNaN, hxKey⟩ := le_iff_key.1 h
  -- An infinity with the extent would not be below the bound.
  have hx : x.isFinite = true := by
    obtain ⟨negative, m, rfl⟩ := exists_finite_of_isFinite hextent
    have hlowBound := (isFinite_iff.1 hlow).2
    cases x with
    | finite => rfl
    | nan => cases hxNaN
    | infinity a =>
      cases a with
      | true =>
        have hkey : (infinity true).key = -rankLimit := rfl
        omega
      | false => exact absurd hbound (not_lt_of_le hfits)
  have hkept : low.larger (x.smaller limit) ≤ x := larger_smaller_le h
  have hkeptLow := le_larger (isNaN_of_isFinite hlow) (x.smaller limit)
  obtain ⟨hnan, -, hkey⟩ := le_iff_key.1 hkept
  have hfinite : (low.larger (x.smaller limit)).isFinite = true := by
    have hxBound := (isFinite_iff.1 hx).2
    have hlowBound := (isFinite_iff.1 hlow).2
    have hlowKey := (le_iff_key.1 hkeptLow).2.2
    exact isFinite_iff.2 ⟨hnan, by omega⟩
  have hsum := key_add_mono hfinite hx hextent hextent hkey le_rfl
  obtain ⟨-, hboundNaN, hfitsKey⟩ := le_iff_key.1 hfits
  exact le_iff_key.2 ⟨(isRounded_add hfinite hextent).1, hboundNaN, hsum.trans hfitsKey⟩

end Bounds

end Binary64

end KineticText
