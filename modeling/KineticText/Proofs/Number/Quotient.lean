import KineticText.Proofs.Number.Clamp

/-!
# Differences, products and quotients

A product of finite doubles is the exact product rounded (`Binary64.isRounded_mul`),
and a quotient by a positive one the exact quotient (`Binary64.isRounded_div`), as a
sum is the exact sum.  So sums, differences and quotients keep the order of what is
added to, diminished or divided, also where a result is beyond all doubles
(`Binary64.add_le_add_right`, `Binary64.sub_le_sub`, `Binary64.div_le_div`), and a
quotient is compared with one as its parts are with each other
(`Binary64.div_le_one`, `Binary64.one_le_div`).
-/

namespace KineticText

namespace Binary64

variable {x y z d : Binary64}

theorem isNaN_neg (x : Binary64) : (-x).isNaN = x.isNaN := by cases x <;> rfl

theorem key_neg (x : Binary64) : (-x).key = -x.key := by
  show x.neg.key = -x.key
  cases x with
  | nan => rfl
  | finite negative m => cases negative <;> simp [neg, key, isNegative, Binary64.rank]
  | infinity negative => cases negative <;> simp [neg, key, isNegative, Binary64.rank]

theorem isRounded_ofRank {negative : Bool} {rank : ℕ} {q : ℚ} (h : IsNearestRank |q| rank)
    (hsign : 0 ≤ if negative then -q else q) : IsRounded q (ofRank negative rank) := by
  by_cases hzero : q = 0
  · -- A zero may have either sign.
    subst hzero
    have hrank : rank = 0 := h.unique (by simpa using isNearestRank_magnitudeAt 0)
    rw [hrank]
    exact isRounded_zero negative
  · refine IsNearest.isRounded ⟨rank, h, ?_⟩
    congr 1
    cases negative with
    | false =>
      have hnonneg : 0 ≤ q := by simpa using hsign
      simp [hnonneg]
    | true =>
      have hnonpos : q ≤ 0 := by simpa using hsign
      simp [lt_of_le_of_ne hnonpos hzero]

/-- Rounding does the same on both sides of zero. -/
theorem IsRounded.neg {q : ℚ} (h : IsRounded q x) : IsRounded (-q) (-x) := by
  obtain ⟨hnan, y, hy, hkey⟩ := h
  obtain ⟨rank, hrank, rfl⟩ := hy
  have hopposite : IsRounded (-q) (ofRank (!decide (q < 0)) rank) := by
    refine isRounded_ofRank (by rwa [abs_neg]) ?_
    rcases lt_or_ge q 0 with hq | hq
    · simp [hq, hq.le]
    · simp [not_lt.2 hq, hq]
  obtain ⟨-, z, hz, hzkey⟩ := hopposite
  refine ⟨(isNaN_neg x).trans hnan, z, hz, ?_⟩
  rw [← hzkey, key_neg, hkey, key_ofRank, key_ofRank]
  cases decide (q < 0) <;> simp

/-- A product of finite doubles is rounded once. -/
theorem isRounded_mul (hx : x.isFinite = true) (hy : y.isFinite = true) :
    IsRounded (x.value * y.value) (x * y) := by
  obtain ⟨a, m, rfl⟩ := exists_finite_of_isFinite hx
  obtain ⟨b, n, rfl⟩ := exists_finite_of_isFinite hy
  have hproduct := mul_nonneg (magnitudeAt_nonneg m.rank) (magnitudeAt_nonneg n.rank)
  rw [finite_mul_finite, value_finite, value_finite]
  refine isRounded_ofRank ?_ ?_
  · have habs (negative : Bool) (rank : ℕ) :
        |if negative then -magnitudeAt rank else magnitudeAt rank| = magnitudeAt rank := by
      cases negative <;> simp [abs_of_nonneg (magnitudeAt_nonneg rank)]
    rw [abs_mul, habs, habs]
    exact isNearestRank_mul m n
  · cases a <;> cases b <;> simpa using hproduct

/-- A positive finite double has a positive sign and a positive rank. -/
theorem exists_finite_of_pos (hd : d.isFinite = true) (hpos : 0 < d.value) :
    ∃ n : Magnitude, d = finite false n ∧ 0 < n.rank ∧ d.value = magnitudeAt n.rank := by
  obtain ⟨negative, n, rfl⟩ := exists_finite_of_isFinite hd
  have hnonneg := magnitudeAt_nonneg n.rank
  cases negative with
  | true =>
    have hvalue : (finite true n).value = -magnitudeAt n.rank := value_finite true n
    linarith
  | false =>
    have hvalue : (finite false n).value = magnitudeAt n.rank := value_finite false n
    refine ⟨n, rfl, Nat.pos_of_ne_zero fun hzero => ?_, hvalue⟩
    rw [hvalue, hzero, magnitudeAt_zero] at hpos
    exact hpos.false

theorem isRounded_div (hx : x.isFinite = true) (hd : d.isFinite = true) (hpos : 0 < d.value) :
    IsRounded (x.value / d.value) (x / d) := by
  obtain ⟨a, m, rfl⟩ := exists_finite_of_isFinite hx
  obtain ⟨n, rfl, hrank, hvalue⟩ := exists_finite_of_pos hd hpos
  rw [hvalue] at hpos ⊢
  have hquotient : 0 ≤ magnitudeAt m.rank / magnitudeAt n.rank :=
    div_nonneg (magnitudeAt_nonneg m.rank) hpos.le
  have hdiv : finite a m / finite false n =
      ofRank a (nearestRank (m.units * twoPow 1074) n.units) := by
    show div (finite a m) (finite false n) = _
    simp only [div, hrank.ne', if_false, Bool.xor_false, nearest]
  have hnearest := isNearestRank_fraction m.units (unitsAt_pos hrank)
  have hunits : (m.units : ℚ) / unitsAt n.rank = magnitudeAt m.rank / magnitudeAt n.rank := by
    rw [magnitudeAt, magnitudeAt, div_div_div_cancel_right₀ (by positivity)]
    rfl
  rw [hunits] at hnearest
  rw [hdiv, value_finite]
  cases a with
  | false =>
    refine isRounded_ofRank ?_ (by simpa using hquotient)
    rwa [if_neg (by decide), abs_of_nonneg hquotient]
  | true =>
    refine isRounded_ofRank ?_ (by simpa [neg_div] using hquotient)
    rwa [if_pos rfl, neg_div, abs_neg, abs_of_nonneg hquotient]

/-! ## Order -/

theorem infinity_add (negative : Bool) (hz : z.isFinite = true) :
    infinity negative + z = infinity negative := by
  obtain ⟨b, n, rfl⟩ := exists_finite_of_isFinite hz
  rfl

theorem isNaN_add (hx : x.isNaN = false) (hz : z.isFinite = true) : (x + z).isNaN = false := by
  cases x with
  | nan => cases hx
  | infinity negative => rw [infinity_add negative hz]; rfl
  | finite negative m => exact (isRounded_add (x := finite negative m) rfl hz).1

/-- Adding a finite number keeps the order, also that of the infinities. -/
theorem add_le_add_right (hz : z.isFinite = true) (h : x ≤ y) : x + z ≤ y + z := by
  obtain ⟨hx, hy, hkey⟩ := le_iff_key.1 h
  refine le_iff_key.2 ⟨isNaN_add hx hz, isNaN_add hy hz, ?_⟩
  have hxz := natAbs_key_le (x + z)
  have hyz := natAbs_key_le (y + z)
  have hlast : (infinity false).key = rankLimit := rfl
  have hfirst : (infinity true).key = -rankLimit := rfl
  match x, y with
  | finite a m, finite b n =>
    have hfinite (negative : Bool) (m : Magnitude) : (finite negative m).isFinite = true := rfl
    exact key_add_mono (hfinite a m) (hfinite b n) hz hz hkey le_rfl
  | infinity true, y =>
    rw [infinity_add true hz]
    omega
  | x, infinity false =>
    rw [infinity_add false hz]
    omega
  | infinity false, finite b n =>
    have := (isFinite_iff (x := finite b n)).1 rfl
    omega
  | infinity false, infinity true =>
    have hlimit : 0 < rankLimit := by decide
    omega
  | finite a m, infinity true =>
    have := (isFinite_iff (x := finite a m)).1 rfl
    omega

protected theorem add_comm (x y : Binary64) : x + y = y + x := by
  show add x y = add y x
  cases x with
  | nan => cases y <;> rfl
  | finite a m => cases y <;> simp only [add, Bool.and_comm, Int.add_comm]
  | infinity a =>
    cases y with
    | infinity b => cases a <;> cases b <;> rfl
    | _ => rfl

theorem add_le_add_left (hz : z.isFinite = true) (h : x ≤ y) : z + x ≤ z + y := by
  rw [Binary64.add_comm z x, Binary64.add_comm z y]
  exact add_le_add_right hz h

theorem sub_le_sub (hz : z.isFinite = true) (h : x ≤ y) : x - z ≤ y - z :=
  add_le_add_right (isFinite_neg hz) h

theorem infinity_div (negative : Bool) (hd : d.isFinite = true) (hpos : 0 < d.value) :
    infinity negative / d = infinity negative := by
  obtain ⟨n, rfl, -, -⟩ := exists_finite_of_pos hd hpos
  show infinity (negative ^^ false) = infinity negative
  rw [Bool.xor_false]

theorem isNaN_div (hx : x.isNaN = false) (hd : d.isFinite = true) (hpos : 0 < d.value) :
    (x / d).isNaN = false := by
  cases x with
  | nan => cases hx
  | infinity negative => rw [infinity_div negative hd hpos]; rfl
  | finite negative m => exact (isRounded_div (x := finite negative m) rfl hd hpos).1

/-- Division by a positive number keeps the order, also that of the infinities. -/
theorem div_le_div (hd : d.isFinite = true) (hpos : 0 < d.value) (h : x ≤ y) : x / d ≤ y / d := by
  obtain ⟨hx, hy, hkey⟩ := le_iff_key.1 h
  refine le_iff_key.2 ⟨isNaN_div hx hd hpos, isNaN_div hy hd hpos, ?_⟩
  have hxd := natAbs_key_le (x / d)
  have hyd := natAbs_key_le (y / d)
  have hlast : (infinity false).key = rankLimit := rfl
  have hfirst : (infinity true).key = -rankLimit := rfl
  match x, y with
  | finite a m, finite b n =>
    have hvalue := (value_le_value_iff (x := finite a m) (y := finite b n) rfl rfl).2 hkey
    apply (isRounded_div (x := finite a m) rfl hd hpos).key_mono
      (isRounded_div (x := finite b n) rfl hd hpos)
    gcongr
  | infinity true, y =>
    rw [infinity_div true hd hpos]
    omega
  | x, infinity false =>
    rw [infinity_div false hd hpos]
    omega
  | infinity false, finite b n =>
    have := (isFinite_iff (x := finite b n)).1 rfl
    omega
  | infinity false, infinity true =>
    have hlimit : 0 < rankLimit := by decide
    omega
  | finite a m, infinity true =>
    have := (isFinite_iff (x := finite a m)).1 rfl
    omega

/-- A positive number divided by itself is one. -/
theorem key_div_self (hd : d.isFinite = true) (hpos : 0 < d.value) :
    (d / d).key = (1 : Binary64).key := by
  have hone : IsRounded (d.value / d.value) (1 : Binary64) := by
    rw [div_self hpos.ne']
    exact_mod_cast (isNearest_ofInt 1).isRounded
  have hdd := isRounded_div hd hd hpos
  exact le_antisymm (hdd.key_mono hone le_rfl) (hone.key_mono hdd le_rfl)

theorem isNaN_one : (1 : Binary64).isNaN = false := isNaN_ofInt 1

theorem zero_le_one : (0 : Binary64) ≤ 1 :=
  le_iff_key.2 ⟨isNaN_zero, isNaN_one, (isNearest_ofInt 0).key_mono (isNearest_ofInt 1) (by simp)⟩

theorem div_le_one (hd : d.isFinite = true) (hpos : 0 < d.value) (h : x ≤ d) : x / d ≤ 1 := by
  have hle := div_le_div hd hpos h
  rw [le_iff_key, key_div_self hd hpos] at hle
  exact le_iff_key.2 ⟨hle.1, isNaN_one, hle.2.2⟩

theorem one_le_div (hd : d.isFinite = true) (hpos : 0 < d.value) (h : d ≤ x) : 1 ≤ x / d := by
  have hle := div_le_div hd hpos h
  rw [le_iff_key, key_div_self hd hpos] at hle
  exact le_iff_key.2 ⟨isNaN_one, hle.2.1, hle.2.2⟩

theorem zero_le_div (hd : d.isFinite = true) (hpos : 0 < d.value) (h : 0 ≤ x) : 0 ≤ x / d := by
  have hrounded := isRounded_div isFinite_zero hd hpos
  rw [value_zero, zero_div] at hrounded
  have hkey := (isRounded_zero false).key_mono hrounded le_rfl
  refine le_trans (le_iff_key.2 ⟨isNaN_zero, hrounded.1, ?_⟩) (div_le_div hd hpos h)
  rw [key_zero]
  exact hkey

end Binary64

end KineticText
