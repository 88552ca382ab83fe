import KineticText.Proofs.Number.Exact

/-!
# The order of rounded numbers

Rounding to the nearest double keeps the order (`IsNearest.key_mono`).  So a
double that is strictly below the double of a whole number is strictly below
that number itself, and likewise above: a quantity that stands for its nearest
double is never set apart from a double from which it is not apart
(`Quantity.lt_of_lt_rounded`, `Quantity.lt_of_rounded_lt`).
-/

namespace KineticText

namespace Binary64

theorem le_of_not_lt {x y : Binary64} (hx : x.isNaN = false) (hy : y.isNaN = false)
    (h : ¬x < y) : y ≤ x :=
  le_iff_key.2 ⟨hy, hx, not_lt.1 fun hkey => h (lt_iff_key.2 ⟨hx, hy, hkey⟩)⟩

theorem lt_of_not_le {x y : Binary64} (hx : x.isNaN = false) (hy : y.isNaN = false)
    (h : ¬x ≤ y) : y < x :=
  lt_iff_key.2 ⟨hy, hx, not_le.1 fun hkey => h (le_iff_key.2 ⟨hx, hy, hkey⟩)⟩

theorem le_refl {x : Binary64} (hx : x.isNaN = false) : x ≤ x :=
  le_iff_key.2 ⟨hx, hx, le_rfl⟩

theorem le_of_lt {x y : Binary64} (h : x < y) : x ≤ y := by
  obtain ⟨hx, hy, hkey⟩ := lt_iff_key.1 h
  exact le_iff_key.2 ⟨hx, hy, hkey.le⟩

theorem le_trans {x y z : Binary64} (hxy : x ≤ y) (hyz : y ≤ z) : x ≤ z := by
  rw [le_iff_key] at hxy hyz ⊢
  exact ⟨hxy.1, hyz.2.1, hxy.2.2.trans hyz.2.2⟩

theorem not_lt_of_le {x y : Binary64} (h : x ≤ y) : ¬y < x :=
  fun hlt => (key_lt_of_lt hlt).not_ge (le_iff_key.1 h).2.2

theorem key_ofRank (negative : Bool) (rank : ℕ) :
    (ofRank negative rank).key =
      if negative then -((min rank rankLimit : ℕ) : ℤ) else (min rank rankLimit : ℕ) := by
  rw [key, isNegative_ofRank, rank_ofRank]

/-- Rounding keeps the order of numbers. -/
theorem IsNearest.key_mono {p q : ℚ} {x y : Binary64} (hx : IsNearest p x) (hy : IsNearest q y)
    (h : p ≤ q) : x.key ≤ y.key := by
  obtain ⟨r, hr, rfl⟩ := hx
  obtain ⟨s, hs, rfl⟩ := hy
  rw [key_ofRank, key_ofRank]
  rcases lt_or_ge q 0 with hq | hq
  · have hle : s ≤ r := by
      refine hs.mono hr ?_
      rw [abs_of_neg hq, abs_of_neg (h.trans_lt hq)]
      linarith
    simp only [hq, h.trans_lt hq, decide_true, if_true]
    omega
  rcases lt_or_ge p 0 with hp | hp
  · simp only [hp, not_lt.2 hq, decide_true, decide_false, if_true, Bool.false_eq_true, if_false]
    omega
  · have hle : r ≤ s := by
      refine hr.mono hs ?_
      rwa [abs_of_nonneg hp, abs_of_nonneg hq]
    simp only [not_lt.2 hp, not_lt.2 hq, decide_false, Bool.false_eq_true, if_false]
    omega

/-- The double nearest to a double is, but for the sign of a zero, that double. -/
theorem key_eq_of_isNearest_value {negative : Bool} {m : Magnitude} {y : Binary64}
    (h : IsNearest (finite negative m).value y) : y.key = (finite negative m).key := by
  obtain ⟨rank, hrank, rfl⟩ := h
  have hlimit := m.rank_lt
  have hnonneg : 0 ≤ magnitudeAt m.rank := by
    rw [← magnitudeAt_zero]
    exact magnitudeAt_strictMono.monotone (Nat.zero_le _)
  have habs : |(finite negative m).value| = magnitudeAt m.rank := by
    rw [value_finite]
    cases negative <;> simp [abs_of_nonneg hnonneg]
  rw [habs] at hrank
  obtain rfl := hrank.unique (isNearestRank_magnitudeAt m.rank)
  rw [key_ofRank, value_finite, min_eq_left hlimit.le]
  cases negative with
  | false => simp [hnonneg.not_gt, key, isNegative, Binary64.rank]
  | true =>
    rcases Nat.eq_zero_or_pos m.rank with hzero | hpos
    · simp [hzero, key, isNegative, Binary64.rank]
    · have hmagnitude : 0 < magnitudeAt m.rank := magnitudeAt_zero ▸ magnitudeAt_strictMono hpos
      simp [hmagnitude, key, isNegative, Binary64.rank]

theorem exists_isNearest (q : ℚ) : ∃ x, IsNearest q x := by
  obtain ⟨rank, hrank⟩ := exists_isNearestRank (abs_nonneg q)
  exact ⟨_, rank, hrank, rfl⟩

theorem isNearest_ofInt (i : ℤ) : IsNearest i (ofInt i) := by
  refine ⟨nearestRank (i.natAbs * twoPow 1074) 1, ?_, ?_⟩
  · have h := isNearestRank_natCast i.natAbs
    rwa [Nat.cast_natAbs, Int.cast_abs] at h
  · simp only [ofInt, ofFraction, nearest, Int.cast_lt_zero]

/-! ## Doubles and whole numbers -/

theorem ofNat_eq (n : ℕ) : (OfNat.ofNat n : Binary64) = ofInt n := rfl

section Whole

variable {x : Binary64} {n : ℤ} {negative : Bool} {m : Magnitude}

theorem key_ofInt_le (h : n * twoPow 1074 ≤ (finite negative m).units) :
    (ofInt n).key ≤ (finite negative m).key := by
  obtain ⟨y, hy⟩ := exists_isNearest (finite negative m).value
  rw [← key_eq_of_isNearest_value hy]
  refine (isNearest_ofInt n).key_mono hy ?_
  rw [value, le_div_iff₀ (by positivity), ← cast_twoPow]
  exact_mod_cast h

theorem le_key_ofInt (h : (finite negative m).units ≤ n * twoPow 1074) :
    (finite negative m).key ≤ (ofInt n).key := by
  obtain ⟨y, hy⟩ := exists_isNearest (finite negative m).value
  rw [← key_eq_of_isNearest_value hy]
  refine hy.key_mono (isNearest_ofInt n) ?_
  rw [value, div_le_iff₀ (by positivity), ← cast_twoPow]
  exact_mod_cast h

theorem natAbs_key_ofInt_le (n : ℤ) : (ofInt n).key.natAbs ≤ rankLimit := by
  rw [ofInt, ofFraction, nearest, key_ofRank]
  split_ifs <;> omega

/-- A double below the double of a whole number is below that number. -/
theorem belowWhole_of_lt_ofInt (h : x < ofInt n) : Quantity.belowWhole x n = true := by
  have hkey := key_lt_of_lt h
  cases x with
  | nan => cases (lt_iff_key.1 h).1
  | infinity negative =>
    cases negative with
    | true => rfl
    | false =>
      have hle := natAbs_key_ofInt_le n
      have hinfinity : (infinity false).key = rankLimit := rfl
      omega
  | finite negative m =>
    refine decide_eq_true (not_le.1 fun hle => ?_)
    exact (key_ofInt_le hle).not_gt hkey

/-- A double above the double of a whole number is above that number. -/
theorem wholeBelow_of_ofInt_lt (h : ofInt n < x) : Quantity.wholeBelow n x = true := by
  have hkey := key_lt_of_lt h
  cases x with
  | nan => cases (lt_iff_key.1 h).2.1
  | infinity negative =>
    cases negative with
    | false => rfl
    | true =>
      have hle := natAbs_key_ofInt_le n
      have hinfinity : (infinity true).key = -rankLimit := rfl
      omega
  | finite negative m =>
    refine decide_eq_true (not_le.1 fun hle => ?_)
    exact (le_key_ofInt hle).not_gt hkey

end Whole

end Binary64

namespace Quantity

theorem ofInt_of_whole? {q : Quantity} {n : ℤ} (h : q.whole? = some n) :
    q.toBinary64 = .ofInt n := by
  cases q with
  | whole value =>
    cases h
    rfl
  | real value => cases h
  | truth value =>
    cases h
    cases value with
    | false =>
      simp only [toBinary64, Bool.false_eq_true, if_false]
      rw [Binary64.ofNat_eq, Nat.cast_zero]
    | true =>
      simp only [toBinary64, if_true]
      rw [Binary64.ofNat_eq, Nat.cast_one]

theorem eq_real_of_whole? {q : Quantity} (h : q.whole? = none) : q = real q.toBinary64 := by
  cases q with
  | real value => rfl
  | whole value => cases h
  | truth value => cases h

/-- A double below a rounded quantity is below the quantity. -/
theorem lt_of_lt_rounded {x : Binary64} {q : Quantity} (h : real x < q.rounded) : real x < q := by
  cases hq : q.whole? with
  | none => rwa [eq_real_of_whole? hq]
  | some n =>
    rw [rounded, real_lt_real, ofInt_of_whole? hq] at h
    show (real x).lt q = true
    rw [lt, hq]
    exact Binary64.belowWhole_of_lt_ofInt h

/-- A double above a rounded quantity is above the quantity. -/
theorem lt_of_rounded_lt {x : Binary64} {q : Quantity} (h : q.rounded < real x) : q < real x := by
  cases hq : q.whole? with
  | none => rwa [eq_real_of_whole? hq]
  | some n =>
    rw [rounded, real_lt_real, ofInt_of_whole? hq] at h
    show q.lt (real x) = true
    rw [lt, hq]
    exact Binary64.wholeBelow_of_ofInt_lt h

end Quantity

end KineticText
