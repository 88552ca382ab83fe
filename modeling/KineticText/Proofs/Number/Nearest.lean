import KineticText.Number.Shortest
import KineticText.Proofs.Number.Power

/-!
# The nearest rank

`nearestRank` picks the width of the grid from the number of binary digits of
a quotient and rounds once on that grid.  This module compares it with a rule
that knows no grid: `IsNearestRank` says that no other finite or overflowing
magnitude is nearer, and that a tie goes to the even rank.

There are four groups.

* The rounded quotient.  `halfEven_error` bounds the error by half a divisor,
  and `halfEven_even` says where a tie goes.
* Units of a rank.  `unitsAt_succ` gives the distance from a magnitude to the
  next one, and everything about the order of magnitudes follows from it.
* The interval of a rank.  `InInterval` is the set of numbers that round to a
  rank.  `nearestRank_inInterval` shows that `nearestRank` finds the rank whose
  interval holds the quotient.
* The nearest rank.  `isNearestRank_of_inInterval`, `IsNearestRank.unique` and
  `IsNearestRank.mono` are what other modules use.
-/

namespace KineticText

/-! ## The rounded quotient -/

/-- A rounded quotient is off the exact one by at most one half. -/
theorem halfEven_error (n : ℕ) {d : ℕ} (hd : 0 < d) :
    2 * (halfEven n d * d) ≤ 2 * n + d ∧ 2 * n ≤ 2 * (halfEven n d * d) + d := by
  have hn : d * (n / d) + n % d = n := Nat.div_add_mod n d
  have hm : n % d < d := Nat.mod_lt n hd
  unfold halfEven
  dsimp only
  split_ifs with h₁ h₂
  · rw [Nat.mul_comm (n / d)]
    omega
  · rw [Nat.add_mul, Nat.mul_comm (n / d)]
    omega
  · have hparity : n / d % 2 = 0 ∨ n / d % 2 = 1 := by omega
    rcases hparity with h | h
    · rw [h, Nat.add_zero, Nat.mul_comm (n / d)]
      omega
    · rw [h, Nat.add_mul, Nat.mul_comm (n / d)]
      omega

/-- A quotient half way between two whole numbers is rounded to the even one. -/
theorem halfEven_even {n d : ℕ} (hd : 0 < d)
    (h : 2 * (halfEven n d * d) = 2 * n + d ∨ 2 * n = 2 * (halfEven n d * d) + d) :
    halfEven n d % 2 = 0 := by
  have hn : d * (n / d) + n % d = n := Nat.div_add_mod n d
  have hm : n % d < d := Nat.mod_lt n hd
  simp only [halfEven] at h ⊢
  split_ifs at h ⊢ with h₁ h₂
  · rw [Nat.mul_comm (n / d)] at h
    omega
  · rw [Nat.add_mul, Nat.mul_comm (n / d)] at h
    omega
  · omega

/-- A rounded quotient is one of the two whole numbers beside the exact one. -/
theorem halfEven_eq_or (n d : ℕ) : halfEven n d = n / d ∨ halfEven n d = n / d + 1 := by
  simp only [halfEven]
  split_ifs <;> omega

/-! ## Units of a rank -/

/-- The distance in units from the magnitude of a rank to the next one. -/
def gapAt (rank : ℕ) : ℕ := twoPow (rank / twoPow 52 - 1)

theorem gapAt_pos (rank : ℕ) : 0 < gapAt rank := twoPow_pos _

theorem gapAt_mono {r s : ℕ} (h : r ≤ s) : gapAt r ≤ gapAt s :=
  twoPow_mono (Nat.sub_le_sub_right (Nat.div_le_div_right h) 1)

/-- The units of a rank from a multiple of the width of its block. -/
theorem unitsAt_block {w h : ℕ} (hh : h ≤ 2 * twoPow 52) (hw : w = 0 ∨ twoPow 52 ≤ h) :
    unitsAt (w * twoPow 52 + h) = h * twoPow w := by
  have hB : 0 < twoPow 52 := twoPow_pos 52
  generalize hBdef : twoPow 52 = B at *
  rw [unitsAt, hBdef]
  by_cases hsmall : w * B + h < B
  · have hw0 : w = 0 := by
      rcases hw with hw | hw
      · exact hw
      · omega
    subst hw0
    simp [twoPow] at hsmall ⊢
    omega
  · rw [if_neg hsmall]
    rcases Nat.lt_or_ge h (2 * B) with hlt | hge
    · have hge' : B ≤ h := by
        rcases hw with hw | hw
        · subst hw
          simpa using hsmall
        · exact hw
      have hsplit : w * B + h = (h - B) + (w + 1) * B := by
        rw [Nat.add_mul]
        omega
      rw [hsplit, Nat.add_mul_mod_self_right, Nat.add_mul_div_right _ _ hB,
        Nat.mod_eq_of_lt (by omega), Nat.div_eq_of_lt (by omega)]
      congr 1
      · omega
      · simp
    · have hh' : h = 2 * B := by omega
      subst hh'
      have hsplit : w * B + 2 * B = 0 + (w + 2) * B := by
        rw [Nat.add_mul]
        omega
      rw [hsplit, Nat.add_mul_mod_self_right, Nat.add_mul_div_right _ _ hB]
      simp only [Nat.zero_mod, Nat.zero_div, Nat.add_zero, Nat.zero_add]
      rw [show w + 2 - 1 = w + 1 by omega, twoPow, twoPow, Nat.pow_eq, Nat.pow_eq, pow_succ]
      ring

theorem unitsAt_rankLimit : unitsAt rankLimit = twoPow (1024 + 1074) := by
  have hblock : rankLimit = 2046 * twoPow 52 + twoPow 52 := by
    unfold rankLimit
    ring
  have hpos : 0 < twoPow 52 := twoPow_pos 52
  rw [show 1024 + 1074 = 52 + 2046 by decide, twoPow_add, hblock,
    unitsAt_block (by omega) (.inr le_rfl)]

/-- Every rank is a block and a place in it. -/
theorem exists_block (rank : ℕ) :
    ∃ w h, rank = w * twoPow 52 + h ∧ h < 2 * twoPow 52 ∧ (w = 0 ∨ twoPow 52 ≤ h) ∧
      gapAt rank = twoPow w := by
  have hB : 0 < twoPow 52 := twoPow_pos 52
  have hsplit : twoPow 52 * (rank / twoPow 52) + rank % twoPow 52 = rank := Nat.div_add_mod _ _
  have hmod : rank % twoPow 52 < twoPow 52 := Nat.mod_lt _ hB
  unfold gapAt
  generalize rank % twoPow 52 = m at *
  cases hb : rank / twoPow 52 with
  | zero =>
    rw [hb] at hsplit
    exact ⟨0, m, by omega, by omega, .inl rfl, rfl⟩
  | succ b =>
    rw [hb] at hsplit
    refine ⟨b, twoPow 52 + m, ?_, by omega, .inr (by omega), rfl⟩
    rw [← hsplit]
    ring

theorem unitsAt_succ (rank : ℕ) : unitsAt (rank + 1) = unitsAt rank + gapAt rank := by
  obtain ⟨w, h, hrank, hh, hw, hgap⟩ := exists_block rank
  rw [hgap, hrank, Nat.add_assoc, unitsAt_block (by omega) (by omega),
    unitsAt_block (by omega) hw, Nat.add_mul, Nat.one_mul]

theorem unitsAt_strictMono : StrictMono unitsAt := by
  refine strictMono_nat_of_lt_succ fun rank => ?_
  have := gapAt_pos rank
  rw [unitsAt_succ]
  omega

@[simp] theorem unitsAt_zero : unitsAt 0 = 0 := by decide

theorem unitsAt_pos {rank : ℕ} (h : 0 < rank) : 0 < unitsAt rank := by
  have := unitsAt_strictMono h
  rwa [unitsAt_zero] at this

/-- A magnitude is at most `2 ^ 53` times its distance from the one below. -/
theorem unitsAt_succ_le (rank : ℕ) :
    unitsAt (rank + 1) ≤ twoPow 53 * gapAt rank := by
  obtain ⟨w, h, hrank, hh, hw, hgap⟩ := exists_block rank
  have hunits : unitsAt (rank + 1) = (h + 1) * twoPow w := by
    rw [hrank, Nat.add_assoc, unitsAt_block (by omega) (by omega)]
  rw [hunits, hgap]
  exact Nat.mul_le_mul_right _ hh

/-- The magnitude of a rank.  Ranks from `rankLimit` on go on as if there were
no greatest exponent. -/
def magnitudeAt (rank : ℕ) : ℚ := unitsAt rank / 2 ^ 1074

theorem magnitudeAt_strictMono : StrictMono magnitudeAt := by
  intro r s h
  have : (unitsAt r : ℚ) < unitsAt s := by exact_mod_cast unitsAt_strictMono h
  exact div_lt_div_of_pos_right this (by positivity)

@[simp] theorem magnitudeAt_zero : magnitudeAt 0 = 0 := by simp [magnitudeAt]

/-! ## The interval of a rank -/

/-- The numbers that round to a rank: those up to half way to its neighbours,
the two ends only where the rank is even. -/
def InInterval (rank : ℕ) (q : ℚ) : Prop :=
  if rank % 2 = 0 then
    magnitudeAt (rank - 1) + magnitudeAt rank ≤ 2 * q ∧
      2 * q ≤ magnitudeAt rank + magnitudeAt (rank + 1)
  else
    magnitudeAt (rank - 1) + magnitudeAt rank < 2 * q ∧
      2 * q < magnitudeAt rank + magnitudeAt (rank + 1)

theorem magnitudeAt_add_low (rank : ℕ) :
    magnitudeAt (rank - 1) + magnitudeAt rank = Binary64.intervalLow rank / 2 ^ 1074 := by
  rw [magnitudeAt, magnitudeAt, Binary64.intervalLow, ← add_div, Nat.cast_add]

theorem magnitudeAt_add_high (rank : ℕ) :
    magnitudeAt rank + magnitudeAt (rank + 1) = Binary64.intervalHigh rank / 2 ^ 1074 := by
  rw [magnitudeAt, magnitudeAt, Binary64.intervalHigh, ← add_div, Nat.cast_add]

/-- The grid of a quotient is fine enough for 53 digits, and not finer than
needed. -/
theorem quotient_block (n d : ℕ) :
    n / d / twoPow ((n / d).log2 - 52) < 2 * twoPow 52 ∧
      ((n / d).log2 - 52 = 0 ∨ twoPow 52 ≤ n / d / twoPow ((n / d).log2 - 52)) := by
  have hup : n / d < 2 ^ ((n / d).log2 + 1) := Nat.lt_log2_self
  constructor
  · rw [Nat.div_lt_iff_lt_mul (twoPow_pos _), show 2 * twoPow 52 = 2 ^ 53 by decide,
      twoPow, Nat.pow_eq, ← pow_add]
    exact hup.trans_le (Nat.pow_le_pow_right (by decide) (by omega))
  · rcases Nat.eq_zero_or_pos ((n / d).log2 - 52) with h0 | hpos
    · exact .inl h0
    · right
      have hne : n / d ≠ 0 := by
        intro h0
        simp [h0] at hpos
      rw [Nat.le_div_iff_mul_le (twoPow_pos _), twoPow, twoPow, Nat.pow_eq, Nat.pow_eq, ← pow_add]
      have hdown : 2 ^ (n / d).log2 ≤ n / d := Nat.log2_self_le hne
      rw [show 52 + ((n / d).log2 - 52) = (n / d).log2 by omega]
      exact hdown

/-- The distance behind a place of a block is at least the width of the block. -/
theorem le_gapAt_block {w h : ℕ} (hw : w = 0 ∨ twoPow 52 ≤ h) :
    twoPow w ≤ gapAt (w * twoPow 52 + h) := by
  have hB : 0 < twoPow 52 := twoPow_pos 52
  refine twoPow_mono ?_
  rcases hw with rfl | hw
  · omega
  · have hle : (w + 1) * twoPow 52 ≤ w * twoPow 52 + h := by
      rw [Nat.add_mul]
      omega
    have := (Nat.le_div_iff_mul_le hB).2 hle
    omega

/-- The nearest rank as a block and a place in it: the place is the quotient
rounded on the grid of the block. -/
theorem nearestRank_block (n : ℕ) {d : ℕ} (hd : 0 < d) :
    ∃ w h, nearestRank n d = w * twoPow 52 + h ∧ h ≤ 2 * twoPow 52 ∧
      (w = 0 ∨ twoPow 52 ≤ h ∧ twoPow 52 * (d * twoPow w) ≤ n) ∧
      2 * (h * (d * twoPow w)) ≤ 2 * n + d * twoPow w ∧
      2 * n ≤ 2 * (h * (d * twoPow w)) + d * twoPow w ∧
      (2 * (h * (d * twoPow w)) = 2 * n + d * twoPow w ∨
        2 * n = 2 * (h * (d * twoPow w)) + d * twoPow w → h % 2 = 0) := by
  obtain ⟨hup, hdown⟩ := quotient_block n d
  have hD : 0 < d * twoPow ((n / d).log2 - 52) := Nat.mul_pos hd (twoPow_pos _)
  have hor := halfEven_eq_or n (d * twoPow ((n / d).log2 - 52))
  have hfloor := Nat.div_mul_le_self n (d * twoPow ((n / d).log2 - 52))
  rw [Nat.div_div_eq_div_mul] at hup hdown
  obtain ⟨hover, hunder⟩ := halfEven_error n hD
  refine ⟨_, _, rfl, by omega, ?_, hover, hunder, halfEven_even hD⟩
  rcases hdown with h0 | hge
  · exact .inl h0
  · exact .inr ⟨by omega, (Nat.mul_le_mul_right _ hge).trans hfloor⟩

/-- The even places of a block have even ranks. -/
theorem block_parity (w h : ℕ) : (w * twoPow 52 + h) % 2 = h % 2 := by
  rw [show twoPow 52 = 2 ^ 51 * 2 by decide]
  omega

/-- The quotient is not above the upper end of its rank's interval, and at
that end only where the rank is even. -/
theorem nearestRank_high (n : ℕ) {d : ℕ} (hd : 0 < d) :
    2 * n ≤ Binary64.intervalHigh (nearestRank n d) * d ∧
      (2 * n = Binary64.intervalHigh (nearestRank n d) * d → nearestRank n d % 2 = 0) := by
  obtain ⟨w, h, hrank, hh, hw, -, hunder, heven⟩ := nearestRank_block n hd
  have hw' : w = 0 ∨ twoPow 52 ≤ h := hw.imp_right And.left
  have hgap := Nat.mul_le_mul_right d (le_gapAt_block hw')
  have hhigh : Binary64.intervalHigh (nearestRank n d) * d =
      2 * (h * (d * twoPow w)) + gapAt (w * twoPow 52 + h) * d := by
    rw [Binary64.intervalHigh, unitsAt_succ, hrank, unitsAt_block hh hw']
    ring
  rw [Nat.mul_comm (twoPow w)] at hgap
  rw [hhigh, hrank, block_parity]
  exact ⟨by omega, fun htie => heven (.inr (by omega))⟩

theorem nearestRank_low (n : ℕ) {d : ℕ} (hd : 0 < d) :
    Binary64.intervalLow (nearestRank n d) * d ≤ 2 * n ∧
      (Binary64.intervalLow (nearestRank n d) * d = 2 * n → nearestRank n d % 2 = 0) := by
  obtain ⟨w, h, hrank, hh, hw, hover, -, heven⟩ := nearestRank_block n hd
  have hw' : w = 0 ∨ twoPow 52 ≤ h := hw.imp_right And.left
  have hB : 0 < twoPow 52 := twoPow_pos 52
  have hunits : unitsAt (nearestRank n d) = h * twoPow w := by rw [hrank, unitsAt_block hh hw']
  rcases Nat.eq_zero_or_pos (nearestRank n d) with hzero | hpos
  · simp [hzero, Binary64.intervalLow]
  have hprev := unitsAt_succ (nearestRank n d - 1)
  rw [Nat.sub_add_cancel hpos, hunits] at hprev
  have hlow : Binary64.intervalLow (nearestRank n d) * d +
      gapAt (nearestRank n d - 1) * d = 2 * (h * (d * twoPow w)) := by
    rw [Binary64.intervalLow, hunits, show h * (d * twoPow w) = h * twoPow w * d by ring, hprev]
    ring
  have hgap : 0 < gapAt (nearestRank n d - 1) * d := Nat.mul_pos (gapAt_pos _) hd
  have hplace : 0 < h := by
    rcases hw' with rfl | hw' <;> omega
  have hindex : nearestRank n d - 1 = w * twoPow 52 + (h - 1) := by omega
  rw [hindex] at hlow hgap
  rw [hrank, block_parity]
  rw [hrank] at hlow
  by_cases hedge : w = 0 ∨ twoPow 52 ≤ h - 1
  · -- The magnitude below is on the same grid.
    have hwidth := Nat.mul_le_mul_right d (le_gapAt_block hedge)
    rw [Nat.mul_comm (twoPow w)] at hwidth
    exact ⟨by omega, fun htie => heven (.inl (by omega))⟩
  · -- At the first place of a block the quotient is not below the magnitude.
    have hfirst : h = twoPow 52 := by omega
    have hle : twoPow 52 * (d * twoPow w) ≤ n := by
      rcases hw with h0 | hw
      · omega
      · exact hw.2
    subst hfirst
    exact ⟨by omega, fun htie => absurd htie (by omega)⟩

/-- The nearest rank is the one whose interval holds the quotient. -/
theorem nearestRank_inInterval (n : ℕ) {d : ℕ} (hd : 0 < d) :
    InInterval (nearestRank n d) (n / d / 2 ^ 1074) := by
  obtain ⟨hlow, hlowEven⟩ := nearestRank_low n hd
  obtain ⟨hhigh, hhighEven⟩ := nearestRank_high n hd
  have hd' : (0 : ℚ) < d := by exact_mod_cast hd
  have hscale : 2 * ((n : ℚ) / d / 2 ^ 1074) = 2 * n / d / 2 ^ 1074 := by
    rw [mul_div_assoc, mul_div_assoc]
  rw [InInterval, hscale, magnitudeAt_add_low, magnitudeAt_add_high]
  simp only [div_le_div_iff_of_pos_right (show (0 : ℚ) < 2 ^ 1074 by positivity),
    div_lt_div_iff_of_pos_right (show (0 : ℚ) < 2 ^ 1074 by positivity),
    le_div_iff₀ hd', div_le_iff₀ hd', lt_div_iff₀ hd', div_lt_iff₀ hd']
  split_ifs with hparity
  · constructor
    · exact_mod_cast hlow
    · exact_mod_cast hhigh
  · have hlow' := lt_of_le_of_ne hlow fun h => hparity (hlowEven h)
    have hhigh' := lt_of_le_of_ne hhigh fun h => hparity (hhighEven h)
    constructor
    · exact_mod_cast hlow'
    · exact_mod_cast hhigh'

/-! ## The nearest rank -/

/-- No magnitude is nearer to the number, and another one is as near only
where the rank is even. -/
def IsNearestRank (q : ℚ) (rank : ℕ) : Prop :=
  ∀ other, other ≠ rank → |q - magnitudeAt rank| < |q - magnitudeAt other| ∨
    |q - magnitudeAt rank| = |q - magnitudeAt other| ∧ rank % 2 = 0

/-- The greater of two numbers is the nearer one above their middle. -/
theorem nearer_above_iff {a b : ℚ} (hab : a < b) (q : ℚ) :
    |q - b| < |q - a| ↔ a + b < 2 * q := by
  have hfactor : (q - a) ^ 2 - (q - b) ^ 2 = (b - a) * (2 * q - (a + b)) := by ring
  rw [← sq_lt_sq, ← sub_pos, hfactor, mul_pos_iff_of_pos_left (sub_pos.2 hab), sub_pos]

theorem nearer_below_iff {a b : ℚ} (hab : a < b) (q : ℚ) :
    |q - a| < |q - b| ↔ 2 * q < a + b := by
  have hfactor : (q - b) ^ 2 - (q - a) ^ 2 = (b - a) * (a + b - 2 * q) := by ring
  rw [← sq_lt_sq, ← sub_pos, hfactor, mul_pos_iff_of_pos_left (sub_pos.2 hab), sub_pos]

theorem equallyNear_iff {a b : ℚ} (hab : a < b) (q : ℚ) :
    |q - a| = |q - b| ↔ a + b = 2 * q := by
  have habove := nearer_above_iff hab q
  have hbelow := nearer_below_iff hab q
  constructor
  · intro h
    rw [h] at habove hbelow
    simp only [lt_self_iff_false, false_iff, not_lt] at habove hbelow
    exact le_antisymm hbelow habove
  · intro h
    rw [h] at habove hbelow
    simp only [lt_self_iff_false, iff_false, not_lt] at habove hbelow
    exact le_antisymm habove hbelow

/-- A number in the interval of a rank is nearest to it. -/
theorem isNearestRank_of_inInterval {rank : ℕ} {q : ℚ} (h : InInterval rank q) :
    IsNearestRank q rank := by
  intro other hne
  unfold InInterval at h
  rcases Nat.lt_or_gt_of_ne hne with hlt | hgt
  · have hmag : magnitudeAt other < magnitudeAt rank := magnitudeAt_strictMono hlt
    have hprev : magnitudeAt other ≤ magnitudeAt (rank - 1) :=
      magnitudeAt_strictMono.monotone (by omega)
    rw [nearer_above_iff hmag, eq_comm, equallyNear_iff hmag]
    split_ifs at h with hparity
    · rcases lt_or_eq_of_le (show magnitudeAt other + magnitudeAt rank ≤ 2 * q by linarith)
        with hlt | heq
      · exact .inl hlt
      · exact .inr ⟨heq, hparity⟩
    · left
      linarith
  · have hmag : magnitudeAt rank < magnitudeAt other := magnitudeAt_strictMono hgt
    have hnext : magnitudeAt (rank + 1) ≤ magnitudeAt other :=
      magnitudeAt_strictMono.monotone (by omega)
    rw [nearer_below_iff hmag, equallyNear_iff hmag]
    split_ifs at h with hparity
    · rcases lt_or_eq_of_le (show 2 * q ≤ magnitudeAt rank + magnitudeAt other by linarith)
        with hlt | heq
      · exact .inl hlt
      · exact .inr ⟨heq.symm, hparity⟩
    · left
      linarith

theorem IsNearestRank.not_nearer {q : ℚ} {rank : ℕ} (h : IsNearestRank q rank) (other : ℕ) :
    ¬|q - magnitudeAt other| < |q - magnitudeAt rank| := by
  by_cases hne : other = rank
  · simp [hne]
  · rcases h other hne with hlt | ⟨heq, -⟩
    · exact hlt.le.not_gt
    · simp [heq]

theorem IsNearestRank.not_below {q : ℚ} {r s : ℕ} (hr : IsNearestRank q r)
    (hs : IsNearestRank q s) : ¬r < s := by
  intro hlt
  have hmag : magnitudeAt r < magnitudeAt s := magnitudeAt_strictMono hlt
  have hsr := hs.not_nearer r
  have hrs := hr.not_nearer s
  -- Equally near ranks are both even, and the odd one between them is nearer.
  have htie : |q - magnitudeAt r| = |q - magnitudeAt s| :=
    le_antisymm (not_lt.1 hrs) (not_lt.1 hsr)
  have hrEven : r % 2 = 0 := ((hr s (by omega)).resolve_left (by simp [htie])).2
  have hsEven : s % 2 = 0 := ((hs r (by omega)).resolve_left (by simp [htie])).2
  have hmiddle := (equallyNear_iff hmag q).1 htie
  have hnext := hr.not_nearer (r + 1)
  rw [nearer_above_iff (magnitudeAt_strictMono (Nat.lt_succ_self r))] at hnext
  have hbetween : magnitudeAt (r + 1) < magnitudeAt s := magnitudeAt_strictMono (by omega)
  exact hnext (by linarith)

theorem IsNearestRank.unique {q : ℚ} {r s : ℕ} (hr : IsNearestRank q r)
    (hs : IsNearestRank q s) : r = s := by
  have := hr.not_below hs
  have := hs.not_below hr
  omega

/-- Rounding keeps the order of numbers. -/
theorem IsNearestRank.mono {p q : ℚ} {r s : ℕ} (hr : IsNearestRank p r)
    (hs : IsNearestRank q s) (hpq : p ≤ q) : r ≤ s := by
  by_contra hlt
  have hmag : magnitudeAt s < magnitudeAt r := magnitudeAt_strictMono (not_le.1 hlt)
  have hp := hr.not_nearer s
  have hq := hs.not_nearer r
  rw [nearer_below_iff hmag, not_lt] at hp
  rw [nearer_above_iff hmag, not_lt] at hq
  have heq : p = q := le_antisymm hpq (by linarith)
  subst heq
  exact hlt (hr.unique hs).le

theorem isNearestRank_magnitudeAt (rank : ℕ) : IsNearestRank (magnitudeAt rank) rank := by
  intro other hne
  left
  rw [sub_self, abs_zero, abs_pos, sub_ne_zero]
  exact magnitudeAt_strictMono.injective.ne (Ne.symm hne)

theorem nearestRank_zero {d : ℕ} (hd : 0 < d) : nearestRank 0 d = 0 := by
  simp [nearestRank, halfEven, hd]

theorem isNearestRank_nearestRank (n : ℕ) {d : ℕ} (hd : 0 < d) :
    IsNearestRank (n / d / 2 ^ 1074) (nearestRank n d) :=
  isNearestRank_of_inInterval (nearestRank_inInterval n hd)

/-- The rank nearest to a fraction is found on the fraction in units. -/
theorem isNearestRank_fraction (n : ℕ) {d : ℕ} (hd : 0 < d) :
    IsNearestRank (n / d) (nearestRank (n * twoPow 1074) d) := by
  have h := isNearestRank_nearestRank (n * twoPow 1074) hd
  rwa [Nat.cast_mul, cast_twoPow, div_right_comm, mul_div_assoc,
    div_self (by positivity), mul_one] at h

theorem isNearestRank_natCast (n : ℕ) : IsNearestRank n (nearestRank (n * twoPow 1074) 1) := by
  have h := isNearestRank_fraction n Nat.one_pos
  rwa [Nat.cast_one, div_one] at h

theorem exists_inInterval {q : ℚ} (hq : 0 ≤ q) : ∃ rank, InInterval rank q := by
  have h := nearestRank_inInterval (q.num.natAbs * twoPow 1074) q.den_pos
  rw [Nat.cast_mul, cast_twoPow, div_right_comm, mul_div_assoc, div_self (by positivity), mul_one,
    Nat.cast_natAbs, abs_of_nonneg (Rat.num_nonneg.2 hq), Rat.num_div_den] at h
  exact ⟨_, h⟩

theorem exists_isNearestRank {q : ℚ} (hq : 0 ≤ q) : ∃ rank, IsNearestRank q rank := by
  obtain ⟨rank, h⟩ := exists_inInterval hq
  exact ⟨rank, isNearestRank_of_inInterval h⟩

theorem IsNearestRank.inInterval {q : ℚ} {rank : ℕ} (h : IsNearestRank q rank) (hq : 0 ≤ q) :
    InInterval rank q := by
  obtain ⟨other, hother⟩ := exists_inInterval hq
  rw [h.unique (isNearestRank_of_inInterval hother)]
  exact hother

end KineticText
