import KineticText.Proofs.Number.Exact

/-!
# The shortest decimal reads back

`Binary64.shortest` tries twenty grids of powers of ten, from one that is too
coarse on.  This module shows that one of them has a point in the interval of
the magnitude, so that the decimal it gives always rounds to the double it was
made from.

There are three groups.

* One grid.  `readsBack_iff` says that the test of the search is membership in
  the interval, and `readsBack_nearestDigits` that a grid finer than the
  distance to the magnitude below passes it.
* The search.  `firstHit_isHit` finds the hit wherever there is one.
* The shortest decimal: `shortest_inInterval` and `shortest_lt`.
-/

namespace KineticText

open Binary64

/-! ## One grid -/

theorem readsBack_iff {rank digits : ℕ} {e : ℤ} :
    readsBack rank digits e = true ↔ InInterval rank (digits * 10 ^ e) := by
  have hK : (0 : ℚ) < 2 ^ 1074 := by positivity
  have hM : (0 : ℚ) < 10 ^ (-e).toNat := by positivity
  have hpoint : 2 * ((digits : ℚ) * 10 ^ e) = 2 * digits * 10 ^ e.toNat / 10 ^ (-e).toNat := by
    rw [← Decimal.tenPow_split]
    ring
  have hunits : ((digits * tenPow e.toNat * twoPow 1075 : ℕ) : ℚ)
      = 2 * digits * 10 ^ e.toNat * 2 ^ 1074 := by
    rw [Nat.cast_mul, Nat.cast_mul, cast_tenPow, cast_twoPow, pow_succ]
    generalize (2 : ℚ) ^ 1074 = K
    ring
  have hle (a : ℕ) : (a : ℚ) / 2 ^ 1074 ≤ 2 * digits * 10 ^ e.toNat / 10 ^ (-e).toNat ↔
      a * tenPow (-e).toNat ≤ digits * tenPow e.toNat * twoPow 1075 := by
    rw [div_le_div_iff₀ hK hM, ← hunits, ← cast_tenPow, ← Nat.cast_mul, Nat.cast_le]
  have hge (a : ℕ) : 2 * digits * 10 ^ e.toNat / 10 ^ (-e).toNat ≤ (a : ℚ) / 2 ^ 1074 ↔
      digits * tenPow e.toNat * twoPow 1075 ≤ a * tenPow (-e).toNat := by
    rw [div_le_div_iff₀ hM hK, ← hunits, ← cast_tenPow, ← Nat.cast_mul, Nat.cast_le]
  rw [InInterval, magnitudeAt_add_low, magnitudeAt_add_high, hpoint, hle, hge,
    ← not_le, ← not_le, hle, hge, readsBack]
  generalize digits * tenPow e.toNat * twoPow 1075 = point
  split_ifs <;> simp

/-- The magnitude as the quotient that is rounded on a grid. -/
theorem grid_quotient (rank : ℕ) (e : ℤ) :
    ((unitsAt rank * tenPow (-e).toNat : ℕ) : ℚ) * 10 ^ e =
      magnitudeAt rank * (twoPow 1074 * tenPow e.toNat : ℕ) := by
  have hK : (2 : ℚ) ^ 1074 ≠ 0 := by positivity
  have hM : (10 : ℚ) ^ (-e).toNat ≠ 0 := by positivity
  rw [magnitudeAt, ← Decimal.tenPow_split, Nat.cast_mul, Nat.cast_mul, cast_tenPow, cast_tenPow,
    cast_twoPow]
  field_simp

/-- The nearest point of a grid is off the magnitude by at most half a step. -/
theorem nearestDigits_error (rank : ℕ) (e : ℤ) :
    |(nearestDigits rank e : ℚ) * 10 ^ e - magnitudeAt rank| ≤ 10 ^ e / 2 := by
  have hd : 0 < twoPow 1074 * tenPow e.toNat := Nat.mul_pos (twoPow_pos _) (tenPow_pos _)
  have hD : (0 : ℚ) < (twoPow 1074 * tenPow e.toNat : ℕ) := by exact_mod_cast hd
  have hpow : (0 : ℚ) < 10 ^ e := by positivity
  obtain ⟨hover, hunder⟩ := halfEven_error (unitsAt rank * tenPow (-e).toNat) hd
  have hover' : (2 : ℚ) * (nearestDigits rank e * (twoPow 1074 * tenPow e.toNat : ℕ)) ≤
      2 * (unitsAt rank * tenPow (-e).toNat : ℕ) + (twoPow 1074 * tenPow e.toNat : ℕ) := by
    exact_mod_cast hover
  have hunder' : 2 * ((unitsAt rank * tenPow (-e).toNat : ℕ) : ℚ) ≤
      2 * (nearestDigits rank e * (twoPow 1074 * tenPow e.toNat : ℕ)) +
        (twoPow 1074 * tenPow e.toNat : ℕ) := by
    exact_mod_cast hunder
  have hquotient := grid_quotient rank e
  generalize ((twoPow 1074 * tenPow e.toNat : ℕ) : ℚ) = D at *
  generalize ((unitsAt rank * tenPow (-e).toNat : ℕ) : ℚ) = N at *
  have herror : |nearestDigits rank e * D - N| ≤ D / 2 := by
    rw [abs_le]
    constructor <;> linarith
  have hscaled : ((nearestDigits rank e : ℚ) * 10 ^ e - magnitudeAt rank) * D =
      (nearestDigits rank e * D - N) * 10 ^ e := by
    rw [sub_mul, sub_mul, hquotient]
    ring
  refine le_of_mul_le_mul_right ?_ hD
  calc |(nearestDigits rank e : ℚ) * 10 ^ e - magnitudeAt rank| * D
      = |nearestDigits rank e * D - N| * 10 ^ e := by
        rw [← abs_of_pos hD, ← abs_mul, abs_of_pos hD, hscaled, abs_mul, abs_of_pos hpow]
    _ ≤ D / 2 * 10 ^ e := mul_le_mul_of_nonneg_right herror hpow.le
    _ = 10 ^ e / 2 * D := by ring

/-- The distances on both sides of a magnitude, the lower one not greater. -/
theorem magnitudeAt_gap {rank : ℕ} (h : 0 < rank) :
    magnitudeAt rank - magnitudeAt (rank - 1) ≤ magnitudeAt (rank + 1) - magnitudeAt rank := by
  have hbelow := unitsAt_succ (rank - 1)
  rw [Nat.sub_add_cancel h] at hbelow
  have hgap : gapAt (rank - 1) ≤ gapAt rank := gapAt_mono (Nat.sub_le rank 1)
  have hunits : (unitsAt rank : ℚ) - unitsAt (rank - 1) ≤ unitsAt (rank + 1) - unitsAt rank := by
    rw [unitsAt_succ rank, hbelow]
    push_cast
    have : (gapAt (rank - 1) : ℚ) ≤ gapAt rank := by exact_mod_cast hgap
    linarith
  rw [magnitudeAt, magnitudeAt, magnitudeAt, ← sub_div, ← sub_div]
  exact div_le_div_of_nonneg_right hunits (by positivity)

/-- On a grid finer than the distance to the magnitude below, the nearest point
reads back. -/
theorem readsBack_nearestDigits {rank : ℕ} {e : ℤ} (hrank : 0 < rank)
    (h : 10 ^ e < magnitudeAt rank - magnitudeAt (rank - 1)) :
    readsBack rank (nearestDigits rank e) e = true := by
  have hgap := magnitudeAt_gap hrank
  obtain ⟨hunder, hover⟩ := abs_le.1 (nearestDigits_error rank e)
  rw [readsBack_iff, InInterval]
  split_ifs
  · constructor <;> linarith
  · constructor <;> linarith

/-- The digits of the grid point that is not above the magnitude. -/
def digitsBelow (rank : ℕ) (e : ℤ) : ℕ :=
  unitsAt rank * tenPow (-e).toNat / (twoPow 1074 * tenPow e.toNat)

/-- The magnitude lies between two points of the grid that follow each other. -/
theorem digitsBelow_between (rank : ℕ) (e : ℤ) :
    digitsBelow rank e * 10 ^ e ≤ magnitudeAt rank ∧
      magnitudeAt rank ≤ (digitsBelow rank e + 1 : ℕ) * 10 ^ e := by
  have hd : 0 < twoPow 1074 * tenPow e.toNat := Nat.mul_pos (twoPow_pos _) (tenPow_pos _)
  have hd' : (0 : ℚ) < (twoPow 1074 * tenPow e.toNat : ℕ) := by exact_mod_cast hd
  have hpow : (0 : ℚ) < 10 ^ e := by positivity
  have hquotient := grid_quotient rank e
  have hlow : ((digitsBelow rank e : ℕ) : ℚ) * (twoPow 1074 * tenPow e.toNat : ℕ) ≤
      (unitsAt rank * tenPow (-e).toNat : ℕ) := by
    rw [← Nat.cast_mul, Nat.cast_le, digitsBelow]
    exact Nat.div_mul_le_self ..
  have hhigh : ((unitsAt rank * tenPow (-e).toNat : ℕ) : ℚ) ≤
      (digitsBelow rank e + 1 : ℕ) * (twoPow 1074 * tenPow e.toNat : ℕ) := by
    rw [← Nat.cast_mul, Nat.cast_le, digitsBelow, Nat.mul_comm (_ + 1)]
    exact (Nat.lt_mul_div_succ _ hd).le
  constructor
  · refine le_of_mul_le_mul_right ?_ hd'
    rw [← hquotient, mul_right_comm]
    exact mul_le_mul_of_nonneg_right hlow hpow.le
  · refine le_of_mul_le_mul_right ?_ hd'
    rw [← hquotient, mul_right_comm]
    exact mul_le_mul_of_nonneg_right hhigh hpow.le

theorem nearestDigits_eq_or (rank : ℕ) (e : ℤ) :
    nearestDigits rank e = digitsBelow rank e ∨ nearestDigits rank e = digitsBelow rank e + 1 :=
  halfEven_eq_or ..

/-! ## The search -/

/-- A hit is in the interval, and less than one step above the magnitude. -/
theorem gridHit?_eq_some {rank digits : ℕ} {e : ℤ} (h : gridHit? rank e = some digits) :
    InInterval rank (digits * 10 ^ e) ∧ (digits : ℚ) * 10 ^ e ≤ magnitudeAt rank + 10 ^ e := by
  have hpow : (0 : ℚ) < 10 ^ e := by positivity
  obtain ⟨hfloor, -⟩ := digitsBelow_between rank e
  have hsmall : digits = digitsBelow rank e ∨ digits = digitsBelow rank e + 1 := by
    have hor := nearestDigits_eq_or rank e
    unfold gridHit? at h
    split_ifs at h <;> simp only [Option.some.injEq] at h <;> subst h
    · exact hor
    · rw [otherDigits]
      split_ifs
      · exact .inr rfl
      · exact .inl rfl
  constructor
  · rw [gridHit?] at h
    split_ifs at h with h₁ h₂ <;> simp only [Option.some.injEq] at h <;> subst h
    · exact readsBack_iff.1 h₁
    · exact readsBack_iff.1 h₂
  · rcases hsmall with rfl | rfl
    · linarith
    · rw [Nat.cast_succ, add_mul, one_mul]
      linarith

/-- A grid is passed over only if it has no hit. -/
theorem firstHit_isHit {rank count k : ℕ} {e : ℤ} (hk : k < count)
    (h : (gridHit? rank (e - k)).isSome) :
    gridHit? rank (firstHit rank count e).2 = some (firstHit rank count e).1 ∧
      e - k ≤ (firstHit rank count e).2 := by
  induction count generalizing e k with
  | zero => omega
  | succ count ih =>
    unfold firstHit
    split
    · rename_i digits hdigits
      exact ⟨hdigits, by push_cast; omega⟩
    · rename_i hnone
      cases k with
      | zero => simp [hnone] at h
      | succ k =>
        have hstep : e - 1 - (k : ℤ) = e - ((k + 1 : ℕ) : ℤ) := by push_cast; ring
        obtain ⟨hhit, hexponent⟩ := ih (Nat.lt_of_succ_lt_succ hk) (e := e - 1) (hstep ▸ h)
        exact ⟨hhit, by push_cast; omega⟩

/-! ## The shortest decimal -/

/-- A finite magnitude has at most 2098 binary digits in units. -/
theorem log2_unitsAt_lt {rank : ℕ} (hrank : 0 < rank) (hlimit : rank < rankLimit) :
    (unitsAt rank).log2 < 1024 + 1074 := by
  have hlt := unitsAt_strictMono hlimit
  rw [unitsAt_rankLimit] at hlt
  exact log2_lt_of_lt_twoPow (unitsAt_pos hrank).ne' hlt

/-- The coarsest grid as a power of ten with a whole exponent. -/
theorem tenPow_coarsestExponent (rank k : ℕ) :
    (10 : ℚ) ^ (coarsestExponent rank - k) =
      10 ^ (((unitsAt rank).log2 + 1) * 30103 / 100000) / 10 ^ (322 + k) := by
  rw [coarsestExponent, sub_sub, ← zpow_natCast, ← zpow_natCast, ← zpow_sub₀ (by norm_num)]
  push_cast
  rfl

/-- The nineteenth grid is finer than the distance to the magnitude below. -/
theorem fineGrid_lt {rank : ℕ} (hrank : 0 < rank) (hlimit : rank < rankLimit) :
    (10 : ℚ) ^ (coarsestExponent rank - (18 : ℕ)) <
      magnitudeAt rank - magnitudeAt (rank - 1) := by
  have hpos : unitsAt rank ≠ 0 := (unitsAt_pos hrank).ne'
  have hlog := log2_unitsAt_lt hrank hlimit
  have hbelow := unitsAt_succ (rank - 1)
  have hgap := unitsAt_succ_le (rank - 1)
  rw [Nat.sub_add_cancel hrank] at hbelow hgap
  have hten : tenPow (((unitsAt rank).log2 + 1) * 30103 / 100000) ≤
      4 * twoPow 53 * gapAt (rank - 1) := by
    have hup := tenPow_le_twoPow (m := (unitsAt rank).log2 + 1) (by omega)
    have hdown : 2 ^ (unitsAt rank).log2 ≤ unitsAt rank := Nat.log2_self_le hpos
    rw [twoPow_add, twoPow_add] at hup
    calc tenPow (((unitsAt rank).log2 + 1) * 30103 / 100000)
        ≤ 2 ^ (unitsAt rank).log2 * 2 ^ 1 * 2 ^ 1 := hup
      _ ≤ 4 * unitsAt rank := by omega
      _ ≤ 4 * twoPow 53 * gapAt (rank - 1) := by rw [Nat.mul_assoc]; omega
  have hscale : 4 * twoPow 53 * twoPow 1074 < tenPow 340 := by
    have hlt := twoPow_lt_tenPow (2 + 53 + 1074)
    rw [twoPow_add, twoPow_add, show twoPow 2 = 4 from rfl,
      show (2 + 53 + 1074) * 30103 / 100000 + 1 = 340 by decide] at hlt
    exact hlt
  have hcross : tenPow (((unitsAt rank).log2 + 1) * 30103 / 100000) * twoPow 1074 <
      gapAt (rank - 1) * tenPow 340 := by
    generalize tenPow 340 = scale at hscale ⊢
    calc tenPow (((unitsAt rank).log2 + 1) * 30103 / 100000) * twoPow 1074
        ≤ 4 * twoPow 53 * gapAt (rank - 1) * twoPow 1074 := Nat.mul_le_mul_right _ hten
      _ = gapAt (rank - 1) * (4 * twoPow 53 * twoPow 1074) := by
        rw [Nat.mul_comm _ (gapAt (rank - 1)), Nat.mul_assoc]
      _ < gapAt (rank - 1) * scale := (Nat.mul_lt_mul_left (gapAt_pos _)).2 hscale
  have hdistance : magnitudeAt rank - magnitudeAt (rank - 1) = gapAt (rank - 1) / 2 ^ 1074 := by
    rw [magnitudeAt, magnitudeAt, ← sub_div, hbelow, Nat.cast_add, add_sub_cancel_left]
  rw [tenPow_coarsestExponent, show 322 + 18 = 340 from rfl, hdistance,
    div_lt_div_iff₀ (by positivity) (by positivity),
    ← cast_tenPow, ← cast_tenPow, ← cast_twoPow, ← Nat.cast_mul, ← Nat.cast_mul, Nat.cast_lt]
  exact hcross

/-- The search for the shortest decimal ends with a hit. -/
theorem shortest_isHit {rank : ℕ} (hrank : 0 < rank) (hlimit : rank < rankLimit) :
    gridHit? rank (shortest rank).2 = some (shortest rank).1 ∧
      coarsestExponent rank - 20 ≤ (shortest rank).2 := by
  suffices hsome : (gridHit? rank (coarsestExponent rank - (18 : ℕ))).isSome by
    obtain ⟨hhit, hexponent⟩ := firstHit_isHit (show 18 < 20 by decide) hsome
    refine ⟨hhit, ?_⟩
    rw [shortest]
    omega
  have hread := readsBack_nearestDigits hrank (fineGrid_lt hrank hlimit)
  rw [gridHit?, if_pos hread]
  rfl

theorem shortest_inInterval {rank : ℕ} (hrank : 0 < rank) (hlimit : rank < rankLimit) :
    InInterval rank ((shortest rank).1 * 10 ^ (shortest rank).2) :=
  (gridHit?_eq_some (shortest_isHit hrank hlimit).1).1

/-- A magnitude is below `10 ^ 20` steps of the finest grid. -/
theorem magnitudeAt_lt_fineGrid (rank : ℕ) :
    magnitudeAt rank < 10 ^ 20 * 10 ^ (coarsestExponent rank - (20 : ℕ)) := by
  have hup : unitsAt rank < tenPow (((unitsAt rank).log2 + 1) * 30103 / 100000 + 1) :=
    Nat.lt_log2_self.trans (twoPow_lt_tenPow _)
  have hcross : unitsAt rank * tenPow 322 <
      tenPow (((unitsAt rank).log2 + 1) * 30103 / 100000) * twoPow 1074 := by
    calc unitsAt rank * tenPow 322
        < tenPow (((unitsAt rank).log2 + 1) * 30103 / 100000 + 1) * tenPow 322 :=
          Nat.mul_lt_mul_of_pos_right hup (tenPow_pos _)
      _ = tenPow (((unitsAt rank).log2 + 1) * 30103 / 100000) * tenPow 323 := by
        simp only [tenPow, Nat.pow_eq, ← pow_add]
      _ ≤ _ := Nat.mul_le_mul_left _ tenPow_lt_twoPow.le
  rw [tenPow_coarsestExponent, pow_add, mul_comm ((10 : ℚ) ^ 20), div_mul_eq_mul_div,
    mul_div_mul_right _ _ (by positivity), magnitudeAt,
    div_lt_div_iff₀ (by positivity) (by positivity), ← cast_tenPow, ← cast_tenPow, ← cast_twoPow,
    ← Nat.cast_mul, ← Nat.cast_mul, Nat.cast_lt]
  exact hcross

theorem shortest_lt {rank : ℕ} (hrank : 0 < rank) (hlimit : rank < rankLimit) :
    (shortest rank).1 < 10 ^ 21 := by
  obtain ⟨hhit, hexponent⟩ := shortest_isHit hrank hlimit
  have hnear := (gridHit?_eq_some hhit).2
  have hfine := magnitudeAt_lt_fineGrid rank
  have hpow : (0 : ℚ) < 10 ^ (shortest rank).2 := by positivity
  have hgrid : (10 : ℚ) ^ (coarsestExponent rank - (20 : ℕ)) ≤ 10 ^ (shortest rank).2 :=
    zpow_le_zpow_right₀ (by norm_num) hexponent
  have hdigits : ((shortest rank).1 : ℚ) * 10 ^ (shortest rank).2 <
      10 ^ 21 * 10 ^ (shortest rank).2 := by
    linarith
  exact_mod_cast lt_of_mul_lt_mul_right hdigits hpow.le

end KineticText
