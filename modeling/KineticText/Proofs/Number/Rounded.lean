import KineticText.Proofs.Number.Order
import KineticText.Proofs.Number.Sum

/-!
# Rounded numbers

Every operation on doubles rounds an exact number once.  `Binary64.IsRounded`
says that a double is such a rounded number, whatever the sign of a zero.  A
finite double is its own exact number rounded, a sum of finite doubles is their
exact sum rounded, and the double of a decimal is the decimal rounded.

There are three groups.

* Finite doubles are ordered as their exact numbers
  (`Binary64.value_le_value_iff`).
* Rounding keeps the order (`Binary64.IsRounded.key_mono`), and with it
  addition does (`Binary64.key_add_mono`).
* Rounding is off by a part in `2 ^ 53`, or by half a unit for numbers that
  are smaller than all normal doubles (`Binary64.IsRounded.error`).  Rounding
  to 28 digits, and with it a sum of decimals, is off by a part in `10 ^ 27`
  (`Decimal.round_error`, `Decimal.add_error`).
-/

namespace KineticText

/-! ## Finite doubles -/

theorem magnitudeAt_nonneg (rank : ℕ) : 0 ≤ magnitudeAt rank := by
  rw [← magnitudeAt_zero]
  exact magnitudeAt_strictMono.monotone (Nat.zero_le rank)

namespace Binary64

theorem exists_finite_of_isFinite {x : Binary64} (h : x.isFinite = true) :
    ∃ negative m, x = finite negative m := by
  cases x with
  | finite negative m => exact ⟨negative, m, rfl⟩
  | infinity negative => cases h
  | nan => cases h

theorem isNaN_of_isFinite {x : Binary64} (h : x.isFinite = true) : x.isNaN = false := by
  obtain ⟨negative, m, rfl⟩ := exists_finite_of_isFinite h
  rfl

theorem isNaN_ofInt (i : ℤ) : (ofInt i).isNaN = false := by
  rw [ofInt, ofFraction, nearest, isNaN_ofRank]

theorem infinity_lt_zero : infinity true < 0 := by
  refine lt_iff_key.2 ⟨rfl, isNaN_zero, ?_⟩
  rw [key_zero]
  decide

theorem infinity_lt_infinity : infinity true < infinity false := lt_iff_key.2 ⟨rfl, rfl, by decide⟩

/-- The exact number at a signed rank. -/
def valueAt (key : ℤ) : ℚ := if key < 0 then -magnitudeAt key.natAbs else magnitudeAt key.natAbs

theorem valueAt_zero : valueAt 0 = 0 := by simp [valueAt]

theorem valueAt_natCast (rank : ℕ) : valueAt rank = magnitudeAt rank := by
  rw [valueAt, if_neg (by omega), Int.natAbs_natCast]

theorem valueAt_neg (rank : ℕ) : valueAt (-rank) = -magnitudeAt rank := by
  rw [valueAt, Int.natAbs_neg, Int.natAbs_natCast]
  rcases Nat.eq_zero_or_pos rank with rfl | hpos
  · simp
  · rw [if_pos (by omega)]

theorem valueAt_strictMono : StrictMono valueAt := by
  intro j k h
  have hj := magnitudeAt_nonneg j.natAbs
  have hk := magnitudeAt_nonneg k.natAbs
  rw [valueAt, valueAt]
  split_ifs with hjneg hkneg hkneg
  · exact neg_lt_neg (magnitudeAt_strictMono (by omega))
  · have hpos : 0 < magnitudeAt j.natAbs := by
      rw [← magnitudeAt_zero]
      exact magnitudeAt_strictMono (by omega)
    linarith
  · omega
  · exact magnitudeAt_strictMono (by omega)

/-- The exact number of a finite double is that of its signed rank. -/
theorem value_eq_valueAt {x : Binary64} (h : x.isFinite = true) : x.value = valueAt x.key := by
  obtain ⟨negative, m, rfl⟩ := exists_finite_of_isFinite h
  rw [value_finite, key]
  cases negative with
  | false => exact (valueAt_natCast m.rank).symm
  | true => exact (valueAt_neg m.rank).symm

theorem value_zero : (0 : Binary64).value = 0 := by
  rw [value_eq_valueAt isFinite_zero, key_zero, valueAt_zero]

theorem value_le_value_iff {x y : Binary64} (hx : x.isFinite = true) (hy : y.isFinite = true) :
    x.value ≤ y.value ↔ x.key ≤ y.key := by
  rw [value_eq_valueAt hx, value_eq_valueAt hy, valueAt_strictMono.le_iff_le]

theorem value_lt_value_iff {x y : Binary64} (hx : x.isFinite = true) (hy : y.isFinite = true) :
    x.value < y.value ↔ x.key < y.key := by
  rw [value_eq_valueAt hx, value_eq_valueAt hy, valueAt_strictMono.lt_iff_lt]

theorem value_nonneg_iff {x : Binary64} (hx : x.isFinite = true) : 0 ≤ x.value ↔ 0 ≤ x.key := by
  rw [value_eq_valueAt hx, ← valueAt_zero, valueAt_strictMono.le_iff_le]

theorem value_pos_iff {x : Binary64} (hx : x.isFinite = true) : 0 < x.value ↔ 0 < x.key := by
  rw [value_eq_valueAt hx, ← valueAt_zero, valueAt_strictMono.lt_iff_lt]

theorem pos_of_not_le {x : Binary64} (h : ¬x ≤ 0) (hx : x.isFinite = true) : 0 < x.value := by
  simp only [le_iff_key, isNaN_zero, isNaN_of_isFinite hx, key_zero, true_and, not_le] at h
  exact (value_pos_iff hx).2 h

theorem nonneg_iff_of_isFinite {x : Binary64} (hx : x.isFinite = true) : 0 ≤ x ↔ 0 ≤ x.value := by
  rw [le_iff_key, isNaN_zero, isNaN_of_isFinite hx, key_zero, value_nonneg_iff hx]
  simp

theorem nonpos_iff_of_isFinite {x : Binary64} (hx : x.isFinite = true) : x ≤ 0 ↔ x.value ≤ 0 := by
  rw [le_iff_key, isNaN_zero, isNaN_of_isFinite hx, key_zero, value_eq_valueAt hx, ← valueAt_zero,
    valueAt_strictMono.le_iff_le]
  simp

theorem value_eq_value_iff {x y : Binary64} (hx : x.isFinite = true) (hy : y.isFinite = true) :
    x.value = y.value ↔ x.key = y.key := by
  rw [value_eq_valueAt hx, value_eq_valueAt hy, valueAt_strictMono.injective.eq_iff]

theorem lt_of_value_lt {x y : Binary64} (hx : x.isFinite = true) (hy : y.isFinite = true)
    (h : x.value < y.value) : x < y :=
  lt_iff_key.2 ⟨isNaN_of_isFinite hx, isNaN_of_isFinite hy, (value_lt_value_iff hx hy).1 h⟩

theorem natAbs_key (x : Binary64) : x.key.natAbs = x.rank := by
  rw [key]
  split_ifs
  · rw [Int.natAbs_neg, Int.natAbs_natCast]
  · rw [Int.natAbs_natCast]

/-- A double is finite if its rank is that of a finite one. -/
theorem isFinite_iff {x : Binary64} :
    x.isFinite = true ↔ x.isNaN = false ∧ x.key.natAbs < rankLimit := by
  rw [natAbs_key]
  cases x with
  | finite negative m => simpa [isFinite, isNaN, Binary64.rank] using m.rank_lt
  | infinity negative => simp [isFinite, isNaN, Binary64.rank]
  | nan => simp [isFinite, isNaN]

theorem natAbs_key_le (x : Binary64) : x.key.natAbs ≤ rankLimit := by
  rw [natAbs_key]
  cases x with
  | finite negative m => exact m.rank_lt.le
  | infinity negative => exact le_rfl
  | nan => exact Nat.zero_le _

theorem lt_infinity {x : Binary64} (h : x.isFinite = true) : x < infinity false := by
  obtain ⟨hnan, hkey⟩ := isFinite_iff.1 h
  have hlast : (infinity false).key = rankLimit := rfl
  exact lt_iff_key.2 ⟨hnan, rfl, by omega⟩

/-- A double from zero up to below another one is finite. -/
theorem isFinite_of_lt {x y : Binary64} (hx : 0 ≤ x) (h : x < y) : x.isFinite = true := by
  obtain ⟨-, hnan, hnonneg⟩ := le_iff_key.1 hx
  have hkey := key_lt_of_lt h
  have hlimit := natAbs_key_le y
  rw [key_zero] at hnonneg
  exact isFinite_iff.2 ⟨hnan, by omega⟩

/-- But for zeros, the signed rank is the whole of a finite double. -/
theorem eq_of_key_eq {x y : Binary64} (hx : x.isFinite = true) (hy : y.isFinite = true)
    (h : x.key = y.key) (hne : x.key ≠ 0) : x = y := by
  obtain ⟨a, ⟨m, hm⟩, rfl⟩ := exists_finite_of_isFinite hx
  obtain ⟨b, ⟨n, hn⟩, rfl⟩ := exists_finite_of_isFinite hy
  cases a <;> cases b <;> simp [key, isNegative, Binary64.rank] at h hne ⊢ <;> omega

/-! ## Rounding -/

/-- The double is the number rounded to the nearest one; a zero may have either
sign. -/
def IsRounded (q : ℚ) (x : Binary64) : Prop :=
  x.isNaN = false ∧ ∃ y, IsNearest q y ∧ x.key = y.key

theorem IsNearest.isRounded {q : ℚ} {x : Binary64} (h : IsNearest q x) : IsRounded q x := by
  refine ⟨?_, x, h, rfl⟩
  obtain ⟨rank, -, rfl⟩ := h
  exact isNaN_ofRank ..

theorem IsRounded.key_mono {p q : ℚ} {x y : Binary64} (hx : IsRounded p x) (hy : IsRounded q y)
    (h : p ≤ q) : x.key ≤ y.key := by
  obtain ⟨-, x', hx', hxkey⟩ := hx
  obtain ⟨-, y', hy', hykey⟩ := hy
  rw [hxkey, hykey]
  exact hx'.key_mono hy' h

theorem IsRounded.le {p q : ℚ} {x y : Binary64} (hx : IsRounded p x) (hy : IsRounded q y)
    (h : p ≤ q) : x ≤ y :=
  le_iff_key.2 ⟨hx.1, hy.1, hx.key_mono hy h⟩

theorem isRounded_zero (negative : Bool) : IsRounded 0 (zero negative) := by
  refine ⟨rfl, ofRank false 0, ⟨0, ?_, by simp⟩, ?_⟩
  · simpa using isNearestRank_magnitudeAt 0
  · rw [key_ofRank, Nat.zero_min]
    cases negative <;> rfl

/-- A finite double is its own number rounded. -/
theorem isRounded_value {x : Binary64} (h : x.isFinite = true) : IsRounded x.value x := by
  obtain ⟨negative, m, rfl⟩ := exists_finite_of_isFinite h
  obtain ⟨y, hy⟩ := exists_isNearest (finite negative m).value
  exact ⟨rfl, y, hy, (key_eq_of_isNearest_value hy).symm⟩

/-- A number between finite doubles is rounded to one between them. -/
theorem IsRounded.isFinite_between {q : ℚ} {x low high : Binary64} (h : IsRounded q x)
    (hlow : low.isFinite = true) (hhigh : high.isFinite = true) (hlowLe : low.value ≤ q)
    (hleHigh : q ≤ high.value) : x.isFinite = true ∧ low.value ≤ x.value ∧ x.value ≤ high.value := by
  have hlowKey := (isRounded_value hlow).key_mono h hlowLe
  have hhighKey := h.key_mono (isRounded_value hhigh) hleHigh
  have hx : x.isFinite = true := by
    have hlowLimit := (isFinite_iff.1 hlow).2
    have hhighLimit := (isFinite_iff.1 hhigh).2
    exact isFinite_iff.2 ⟨h.1, by omega⟩
  exact ⟨hx, (value_le_value_iff hlow hx).2 hlowKey, (value_le_value_iff hx hhigh).2 hhighKey⟩

/-- A sum of finite doubles is rounded once. -/
theorem isRounded_add {x y : Binary64} (hx : x.isFinite = true) (hy : y.isFinite = true) :
    IsRounded (x.value + y.value) (x + y) := by
  obtain ⟨a, m, rfl⟩ := exists_finite_of_isFinite hx
  obtain ⟨b, n, rfl⟩ := exists_finite_of_isFinite hy
  have hadd : finite a m + finite b n = ofUnits (a && b) ((finite a m).units + (finite b n).units) :=
    rfl
  have hvalue : (finite a m).value + (finite b n).value =
      ((finite a m).units + (finite b n).units : ℤ) / 2 ^ 1074 := by
    rw [value, value, ← add_div, Int.cast_add]
  rw [hadd, hvalue]
  generalize (finite a m).units + (finite b n).units = z
  rw [ofUnits]
  split_ifs with hzero
  · rw [hzero, Int.cast_zero, zero_div]
    exact isRounded_zero (a && b)
  · refine IsNearest.isRounded ⟨nearestRank z.natAbs 1, ?_, ?_⟩
    · have hrank := isNearestRank_nearestRank z.natAbs Nat.one_pos
      rwa [Nat.cast_one, div_one, Nat.cast_natAbs, Int.cast_abs,
        ← abs_of_pos (show (0 : ℚ) < 2 ^ 1074 by positivity), ← abs_div] at hrank
    · have hsign : (z : ℚ) / 2 ^ 1074 < 0 ↔ z < 0 := by
        rw [div_lt_iff₀ (by positivity), zero_mul, Int.cast_lt_zero]
      rw [nearest, decide_eq_decide.2 hsign]

theorem isFinite_of_add {x y : Binary64} (h : (x + y).isFinite = true) :
    x.isFinite = true ∧ y.isFinite = true := by
  cases x with
  | finite a m =>
    cases y with
    | finite b n => exact ⟨rfl, rfl⟩
    | infinity b => cases h
    | nan => cases h
  | infinity a =>
    cases y with
    | finite b n => cases h
    | infinity b => cases a <;> cases b <;> cases h
    | nan => cases h
  | nan => cases h

theorem key_add_mono {x x' y y' : Binary64} (hx : x.isFinite = true) (hx' : x'.isFinite = true)
    (hy : y.isFinite = true) (hy' : y'.isFinite = true) (hxx : x.key ≤ x'.key)
    (hyy : y.key ≤ y'.key) : (x + y).key ≤ (x' + y').key := by
  rw [← value_le_value_iff hx hx'] at hxx
  rw [← value_le_value_iff hy hy'] at hyy
  exact (isRounded_add hx hy).key_mono (isRounded_add hx' hy') (add_le_add hxx hyy)

/-- A number that is not negative makes no sum smaller. -/
theorem key_le_key_add {x y : Binary64} (hx : x.isFinite = true) (hy : y.isFinite = true)
    (h : 0 ≤ y.value) : x.key ≤ (x + y).key :=
  (isRounded_value hx).key_mono (isRounded_add hx hy) (by linarith)

/-! ## Whole numbers beyond all doubles -/

/-- The least whole number to which no finite double is nearest: the middle
between the largest double and the power of two behind it. -/
def doubleLimit : ℕ := twoPow 1024 - twoPow 970

theorem isFinite_ofInt_iff {i : ℤ} :
    (ofInt i).isFinite = true ↔ i.natAbs < doubleLimit := by
  have hmono {i j : ℤ} (h : i ≤ j) : (ofInt i).key ≤ (ofInt j).key :=
    (isNearest_ofInt i).key_mono (isNearest_ofInt j) (Int.cast_le.2 h)
  have hlow : (ofInt (-doubleLimit)).key = -rankLimit := by decide +kernel
  have hlow' : -(rankLimit : ℤ) < (ofInt (1 - doubleLimit)).key := by decide +kernel
  have hhigh' : (ofInt (doubleLimit - 1)).key < rankLimit := by decide +kernel
  have hhigh : (ofInt doubleLimit).key = rankLimit := by decide +kernel
  rw [isFinite_iff, and_iff_right (isNaN_ofInt i)]
  constructor
  · intro hkey
    by_contra hlimit
    rcases le_total 0 i with hi | hi
    · have := hmono (show (doubleLimit : ℤ) ≤ i by omega)
      omega
    · have := hmono (show i ≤ -(doubleLimit : ℤ) by omega)
      omega
  · intro hlimit
    have := hmono (show 1 - (doubleLimit : ℤ) ≤ i by omega)
    have := hmono (show i ≤ (doubleLimit : ℤ) - 1 by omega)
    omega

theorem isFinite_ofInt {i : ℤ} (h : i.natAbs < 2 ^ 53) : (ofInt i).isFinite = true := by
  have hlimit : 2 ^ 53 ≤ doubleLimit := by decide +kernel
  exact isFinite_ofInt_iff.2 (h.trans_le hlimit)

end Binary64

theorem Decimal.isRounded_toBinary64 (d : Decimal) : Binary64.IsRounded d.value d.toBinary64 := by
  rcases eq_or_ne d.coefficient 0 with hzero | hne
  · have hvalue : d.value = 0 := by
      rw [value, hzero]
      simp
    have hdouble : d.toBinary64 = .zero d.negative := by
      rw [toBinary64, if_pos hzero]
    rw [hvalue, hdouble]
    exact Binary64.isRounded_zero d.negative
  · refine (isNearest_toBinary64 ?_).isRounded
    have hpow : (0 : ℚ) < 10 ^ d.exponent := by positivity
    have hpos : (0 : ℚ) < d.coefficient := by exact_mod_cast Nat.pos_of_ne_zero hne
    have hmagnitude := mul_pos hpos hpow
    rw [value]
    cases d.negative with
    | false => simpa using hmagnitude.le
    | true => simpa using hmagnitude

/-! ## Errors -/

/-- The distance to the next magnitude is one unit, or small beside the
magnitude. -/
theorem gapAt_cases (rank : ℕ) : gapAt rank = 1 ∨ twoPow 52 * gapAt rank ≤ unitsAt rank := by
  obtain ⟨w, h, hrank, hh, hw, hgap⟩ := exists_block rank
  rcases hw with rfl | hw
  · exact .inl hgap
  · right
    rw [hgap, hrank, unitsAt_block hh.le (.inr hw)]
    exact Nat.mul_le_mul_right _ hw

theorem magnitudeAt_one : magnitudeAt 1 = 1 / 2 ^ 1074 := by
  rw [magnitudeAt, show unitsAt 1 = 1 by decide, Nat.cast_one]

theorem magnitudeAt_succ_cases (rank : ℕ) :
    magnitudeAt (rank + 1) = magnitudeAt rank + magnitudeAt 1 ∨
      magnitudeAt (rank + 1) ≤ magnitudeAt rank + magnitudeAt rank / 2 ^ 52 := by
  have hnext : magnitudeAt (rank + 1) = magnitudeAt rank + gapAt rank / 2 ^ 1074 := by
    rw [magnitudeAt, magnitudeAt, unitsAt_succ, Nat.cast_add, add_div]
  refine (gapAt_cases rank).imp (fun hone => ?_) fun hsmall => ?_
  · rw [hnext, hone, Nat.cast_one, magnitudeAt_one]
  · have hgap : (gapAt rank : ℚ) ≤ unitsAt rank / 2 ^ 52 := by
      rw [le_div_iff₀ (by positivity), mul_comm, ← cast_twoPow]
      exact_mod_cast hsmall
    rw [hnext, magnitudeAt, div_right_comm]
    gcongr

theorem magnitudeAt_succ_le (rank : ℕ) :
    magnitudeAt (rank + 1) ≤ magnitudeAt rank + magnitudeAt rank / 2 ^ 52 + magnitudeAt 1 := by
  have hunit := magnitudeAt_nonneg 1
  have hpart : 0 ≤ magnitudeAt rank / 2 ^ 52 := by
    have := magnitudeAt_nonneg rank
    positivity
  rcases magnitudeAt_succ_cases rank with h | h <;> linarith

namespace IsNearestRank

variable {q : ℚ} {rank : ℕ}

/-- A number is at most half way to the next magnitude. -/
theorem two_mul_le (h : IsNearestRank q rank) :
    2 * q ≤ magnitudeAt rank + magnitudeAt (rank + 1) := by
  have hnext := h.not_nearer (rank + 1)
  rwa [nearer_above_iff (magnitudeAt_strictMono (Nat.lt_succ_self rank)), not_lt] at hnext

theorem le_two_mul (h : IsNearestRank q (rank + 1)) :
    magnitudeAt rank + magnitudeAt (rank + 1) ≤ 2 * q := by
  have hprev := h.not_nearer rank
  rwa [nearer_below_iff (magnitudeAt_strictMono (Nat.lt_succ_self rank)), not_lt] at hprev

/-- The magnitude of the nearest rank is off by a part in `2 ^ 53`, or by half a
unit. -/
theorem error (h : IsNearestRank q rank) (hq : 0 ≤ q) :
    |magnitudeAt rank - q| ≤ q / 2 ^ 53 + magnitudeAt 1 / 2 := by
  have hhalf : q / 2 ^ 53 = q / 2 ^ 52 / 2 := by rw [div_div, ← pow_succ]
  have hunit := magnitudeAt_nonneg 1
  have hpart : 0 ≤ q / 2 ^ 52 := by positivity
  rw [abs_sub_le_iff, hhalf]
  constructor
  · cases rank with
    | zero =>
      rw [magnitudeAt_zero]
      linarith
    | succ rank =>
      have hlow := h.le_two_mul
      have hstep := magnitudeAt_succ_le rank
      have hmono := magnitudeAt_strictMono (Nat.lt_succ_self rank)
      have hbelow : magnitudeAt rank / 2 ^ 52 ≤ q / 2 ^ 52 := by
        gcongr
        linarith
      linarith
  · rcases le_or_gt q (magnitudeAt rank) with hle | hlt
    · linarith
    · have hhigh := h.two_mul_le
      have hnext := magnitudeAt_succ_le rank
      have habove : magnitudeAt rank / 2 ^ 52 ≤ q / 2 ^ 52 := by gcongr
      linarith

end IsNearestRank

namespace Binary64

/-- A finite rounded number is off by a part in `2 ^ 53`, or by half a unit. -/
theorem IsRounded.error {q : ℚ} {x : Binary64} (h : IsRounded q x)
    (hfinite : x.isFinite = true) : |x.value - q| ≤ |q| / 2 ^ 53 + magnitudeAt 1 / 2 := by
  obtain ⟨-, y, ⟨rank, hrank, rfl⟩, hkey⟩ := h
  have hlimit := (isFinite_iff.1 hfinite).2
  have herror := hrank.error (abs_nonneg q)
  rw [key_ofRank] at hkey
  have hmin : min rank rankLimit = rank := by
    rw [hkey] at hlimit
    split_ifs at hlimit <;> omega
  rw [hmin] at hkey
  rcases lt_or_ge q 0 with hq | hq
  · have hvalue : x.value = -magnitudeAt rank := by
      rw [value_eq_valueAt hfinite, hkey, decide_eq_true hq, if_pos rfl, valueAt_neg]
    rw [hvalue, show -magnitudeAt rank - q = -(magnitudeAt rank - -q) by ring, abs_neg,
      ← abs_of_neg hq]
    exact herror
  · have hvalue : x.value = magnitudeAt rank := by
      rw [value_eq_valueAt hfinite, hkey, decide_eq_false (not_lt.2 hq), if_neg (by decide),
        valueAt_natCast]
    rw [abs_of_nonneg hq] at herror ⊢
    rw [hvalue]
    exact herror

theorem magnitudeAt_one_le_value {x : Binary64} (hx : x.isFinite = true) (hpos : 0 < x.value) :
    magnitudeAt 1 ≤ x.value := by
  rw [value_eq_valueAt hx, ← valueAt_natCast, valueAt_strictMono.le_iff_le]
  exact (value_pos_iff hx).1 hpos

/-- A sum with a positive number is greater, unless that number is lost beside
the other one. -/
theorem lt_add_of_lt {x y : Binary64} (hx : x.isFinite = true) (hy : y.isFinite = true)
    (hxpos : 0 ≤ x.value) (hypos : 0 < y.value) (h : x.value < 2 ^ 53 * y.value) : x < x + y := by
  have hrounded := isRounded_add hx hy
  refine lt_iff_key.2 ⟨isNaN_of_isFinite hx, hrounded.1, (key_le_key_add hx hy hypos.le).lt_of_ne ?_⟩
  intro hkey
  obtain ⟨-, z, ⟨rank, hrank, rfl⟩, hz⟩ := hrounded
  have hlimit := (isFinite_iff.1 hx).2
  rw [abs_of_pos (by linarith)] at hrank
  rw [← hkey, key_ofRank, decide_eq_false (by linarith), if_neg (by decide)] at hz
  have hvalue : x.value = magnitudeAt rank := by
    rw [value_eq_valueAt hx, hz, min_eq_left (by omega), valueAt_natCast]
  have hhalf := hrank.two_mul_le
  rcases magnitudeAt_succ_cases rank with hunit | hpart
  · have hone := magnitudeAt_one_le_value hy hypos
    linarith
  · rw [← hvalue] at hpart hhalf
    have hscale : x.value / 2 ^ 52 < 2 * y.value := by
      rw [div_lt_iff₀ (by positivity)]
      linarith
    linarith

end Binary64

namespace Decimal

/-- The rounded number keeps the nearest digits, also where they carry. -/
theorem value_round {d : Decimal} {surplus : ℕ} (h : d.digitCount - precision = surplus)
    (hpos : 0 < surplus) : d.round.value =
      value ⟨d.negative, halfEven d.coefficient (tenPow surplus), d.exponent + surplus⟩ := by
  refine value_congr d.round_negative ?_
  unfold round
  dsimp only
  rw [h, if_neg hpos.ne']
  split_ifs with hcarry
  · have hten : (10 : ℚ) ^ precision = 10 ^ (precision - 1) * 10 := pow_succ (10 : ℚ) 27
    rw [hcarry, zpow_add_one₀ (by norm_num), cast_tenPow, cast_tenPow, hten]
    ring
  · rfl

/-- Rounding to 28 digits is off by a part in `10 ^ 27`. -/
theorem round_error (d : Decimal) : |d.round.value - d.value| ≤ |d.value| / 10 ^ 27 := by
  have hprecision : precision = 28 := rfl
  have hpow : (0 : ℚ) < 10 ^ d.exponent := by positivity
  generalize hsurplus : d.digitCount - precision = surplus
  rcases Nat.eq_zero_or_pos surplus with rfl | hpos
  · have hround : d.round = d := by
      unfold round
      simp [hsurplus]
    rw [hround, sub_self, abs_zero]
    positivity
  have hcoefficient : d.coefficient ≠ 0 := by
    intro hzero
    have hone := digitCount_le (d := d) (k := 1) (by decide) (by rw [hzero]; decide)
    omega
  have hdigits : (10 : ℚ) ^ 27 * 10 ^ surplus ≤ d.coefficient := by
    rw [← pow_add, show 27 + surplus = d.digitCount - 1 by omega]
    exact_mod_cast le_coefficient hcoefficient
  -- The kept digits, with zeros for those taken off, are half a last digit away at most.
  obtain ⟨hup, hdown⟩ := halfEven_error d.coefficient (tenPow_pos surplus)
  rw [value_round hsurplus hpos]
  generalize halfEven d.coefficient (tenPow surplus) = kept at hup hdown
  have hdistance : |(kept : ℚ) * 10 ^ surplus - d.coefficient| ≤ d.coefficient / 10 ^ 27 := by
    have hup' : 2 * ((kept : ℚ) * 10 ^ surplus) ≤ 2 * d.coefficient + 10 ^ surplus := by
      rw [← cast_tenPow]
      exact_mod_cast hup
    have hdown' : 2 * (d.coefficient : ℚ) ≤ 2 * (kept * 10 ^ surplus) + 10 ^ surplus := by
      rw [← cast_tenPow]
      exact_mod_cast hdown
    have hlast : (10 : ℚ) ^ surplus ≤ d.coefficient / 10 ^ 27 := by
      rw [le_div_iff₀ (by positivity), mul_comm]
      exact hdigits
    have hpositive : (0 : ℚ) < 10 ^ surplus := by positivity
    rw [abs_sub_le_iff]
    constructor <;> linarith
  have hdifference : |value ⟨d.negative, kept, d.exponent + surplus⟩ - d.value| =
      |(kept : ℚ) * 10 ^ surplus - d.coefficient| * 10 ^ d.exponent := by
    rw [value, value, zpow_add₀ (by norm_num), zpow_natCast, ← abs_of_pos hpow, ← abs_mul,
      abs_of_pos hpow]
    cases d.negative with
    | false =>
      congr 1
      simp
      ring
    | true =>
      rw [← abs_neg]
      congr 1
      simp
      ring
  rw [hdifference, abs_value, mul_div_right_comm]
  exact mul_le_mul_of_nonneg_right hdistance hpow.le

theorem add_error (a b : Decimal) :
    |(a + b).value - (a.value + b.value)| ≤ |a.value + b.value| / 10 ^ 27 := by
  rw [add_eq, ← value_exactSum]
  exact round_error _

theorem add_pos_iff {a b : Decimal} : 0 < (a + b).value ↔ 0 < a.value + b.value := by
  have herror := add_error a b
  rw [abs_le] at herror
  rcases le_or_gt (a.value + b.value) 0 with h | h
  · rw [abs_of_nonpos h] at herror
    exact iff_of_false (by linarith) h.not_gt
  · rw [abs_of_pos h] at herror
    exact iff_of_true (by linarith) h

theorem add_bounds {a b : Decimal} {p q : ℚ} (ha : 0 < a.value) (hb : 0 < b.value)
    (hp : a.value ≤ p) (hq : b.value ≤ q) :
    0 < (a + b).value ∧ (a + b).value ≤ (p + q) + (p + q) / 10 ^ 27 := by
  refine ⟨add_pos_iff.2 (add_pos ha hb), ?_⟩
  have herror := add_error a b
  rw [abs_le, abs_of_pos (add_pos ha hb)] at herror
  linarith

end Decimal

end KineticText
