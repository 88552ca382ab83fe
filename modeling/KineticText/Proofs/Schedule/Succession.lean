import KineticText.Proofs.Schedule.Total
import KineticText.Proofs.Timeline.Succession

/-!
# Schedules with a real gap

The start of a segment is a rounded decimal, and the end of the one before it
the rounded sum of two such doubles.  In a schedule of at most a million seconds
each of these roundings is off by less than a part in ten million of a
millisecond, so that a gap of a millisecond cannot be lost: each end is strictly
before the next start (`finish_lt_start`), however many segments there are
(`succeed_assignFrom`).

There are three groups: roundings, one step, and schedules.
-/

namespace KineticText

/-- A rounded number is finite if a larger one is. -/
theorem Binary64.IsRounded.isFinite_of_le {p q : ℚ} {x y : Binary64} (hx : IsRounded p x)
    (hy : IsRounded q y) (hp : 0 ≤ p) (hpq : p ≤ q) (hfinite : y.isFinite = true) :
    x.isFinite = true := by
  have hzero := (isRounded_zero false).key_mono hx hp
  have hle := hx.key_mono hy hpq
  have hlimit := (isFinite_iff.1 hfinite).2
  have hzeroKey : (zero false).key = 0 := rfl
  exact isFinite_iff.2 ⟨hx.1, by omega⟩

theorem Binary64.IsRounded.value_nonneg {q : ℚ} {x : Binary64} (h : IsRounded q x)
    (hfinite : x.isFinite = true) (hq : 0 ≤ q) : 0 ≤ x.value :=
  (value_nonneg_iff hfinite).2 ((isRounded_zero false).key_mono h hq)

namespace Schedule

/-! ## Roundings -/

/-- Numbers up to ten millions have finite doubles. -/
theorem isFinite_of_le_tenMillion {q : ℚ} {x : Binary64} (h : Binary64.IsRounded q x)
    (hnonneg : 0 ≤ q) (hle : q ≤ 10000000) : x.isFinite = true :=
  h.isFinite_of_le (Binary64.isNearest_ofInt 10000000).isRounded hnonneg (by exact_mod_cast hle)
    (by decide +kernel)

/-- A start that is a millisecond behind an end, but for a tenth of it, is behind
it also when both are rounded. -/
theorem lt_of_closeTo {bit σ δ σ' x y z w : ℚ} (hbit : bit ≤ 1 / 2 ^ 60) (hσ : 0 ≤ σ)
    (hδ : 0 < δ) (hlt : σ + δ + 8 / 10000 ≤ σ') (hσ' : σ' ≤ 1000002) (hx : CloseTo bit σ x)
    (hy : CloseTo bit δ y) (hz : CloseTo bit (x + y) z) (hw : CloseTo bit σ' w) : z < w := by
  obtain ⟨hx, hx'⟩ := hx.within (abs_of_nonneg hσ).le
  obtain ⟨hy, hy'⟩ := hy.within (abs_of_pos hδ).le
  have hxy : |x + y| ≤ σ + δ + (σ + δ) / 2 ^ 53 + 2 * bit := by
    rw [abs_le]
    constructor <;> linarith
  obtain ⟨-, hz'⟩ := hz.within hxy
  obtain ⟨hw, -⟩ := hw.within (abs_of_nonneg (by linarith)).le
  linarith

/-! ## One step -/

section Step

variable {γ cursor : Decimal} {s t : Segment}

/-- A sum of decimals that is not negative is the exact one but for a part in
`10 ^ 26` of a bound. -/
theorem abs_add_sub_le {a b : Decimal} {q : ℚ} (hnonneg : 0 ≤ a.value + b.value)
    (hle : (a + b).value ≤ q) : |(a + b).value - (a.value + b.value)| ≤ q / 10 ^ 26 := by
  have herror := Decimal.add_error a b
  rw [abs_of_nonneg hnonneg] at herror
  have hlow := (abs_le.1 herror).1
  have hbound : a.value + b.value ≤ 10 * q := by linarith
  exact herror.trans (by linarith)

variable (hcursor : 0 ≤ cursor.value)
include hcursor

theorem cursor_le (hend : (cursor + secondsOf s).value ≤ 1000001) : cursor.value ≤ 1000002 := by
  have hpos := (secondsOf_bounds s).1
  have hclose := abs_le.1 (abs_add_sub_le (by linarith) hend)
  linarith

theorem isFinite_finish (hend : (cursor + secondsOf s).value ≤ 1000001) :
    (timedAt cursor s).finish.toBinary64.isFinite = true := by
  obtain ⟨hpos, hseconds⟩ := secondsOf_bounds s
  have hle := cursor_le hcursor hend
  have hx := cursor.isRounded_toBinary64
  have hy := (secondsOf s).isRounded_toBinary64
  have hxFinite := isFinite_of_le_tenMillion hx hcursor (by linarith)
  have hyFinite := isFinite_of_le_tenMillion hy hpos.le (by linarith)
  have hxNonneg := hx.value_nonneg hxFinite hcursor
  have hyNonneg := hy.value_nonneg hyFinite hpos.le
  have hxClose := (CloseTo.within (hx.error hxFinite) (abs_of_nonneg hcursor).le).2
  have hyClose := (CloseTo.within (hy.error hyFinite) (abs_of_pos hpos).le).2
  have hbit := magnitudeAt_one_le
  have hsum : cursor.toBinary64.value + (secondsOf s).toBinary64.value ≤ 10000000 := by linarith
  exact isFinite_of_le_tenMillion (Binary64.isRounded_add hxFinite hyFinite)
    (add_nonneg hxNonneg hyNonneg) hsum

theorem start_le_finish (hend : (cursor + secondsOf s).value ≤ 1000001) :
    (timedAt cursor s).start ≤ (timedAt cursor s).finish := by
  have hat : EndsAt (cursor + secondsOf s) (timedAt cursor s) := ⟨cursor, rfl, rfl, rfl⟩
  have hfinite := isFinite_finish hcursor hend
  have hstart := (Binary64.isFinite_of_add hfinite).1
  have hle := hat.start_le_finish hfinite
  refine Quantity.real_le_real.2 (Binary64.le_iff_key.2 ⟨?_, ?_, ?_⟩)
  · exact Binary64.isNaN_of_isFinite hstart
  · exact Binary64.isNaN_of_isFinite hfinite
  · exact (Binary64.value_le_value_iff hstart hfinite).1 hle

/-- With a real gap a segment is over before the next one starts. -/
theorem finish_lt_start (hγ : 9 / 10000 ≤ γ.value)
    (hs : (cursor + secondsOf s).value ≤ 1000001)
    (ht : (cursor + (secondsOf s + γ) + secondsOf t).value ≤ 1000001) :
    (timedAt cursor s).finish < (timedAt (cursor + (secondsOf s + γ)) t).start := by
  have hpos := (secondsOf_bounds s).1
  have hstepPos : 0 < (secondsOf s + γ).value := Decimal.add_pos_iff.2 (by linarith)
  have hnextPos : 0 < (cursor + (secondsOf s + γ)).value := Decimal.add_pos_iff.2 (by linarith)
  -- The next start is a millisecond behind the end, but for two roundings of decimals.
  have hnextLe := cursor_le hnextPos.le ht
  have hnext := abs_le.1 (abs_add_sub_le (by linarith) hnextLe)
  have hstepLe : (secondsOf s + γ).value ≤ 1000003 := by linarith
  have hstep := abs_le.1 (abs_add_sub_le (by linarith) hstepLe)
  have hgap : cursor.value + (secondsOf s).value + 8 / 10000 ≤ (cursor + (secondsOf s + γ)).value := by
    linarith
  have hfinish := isFinite_finish hcursor hs
  obtain ⟨hx, hy⟩ := Binary64.isFinite_of_add hfinish
  have hw := isFinite_of_le_tenMillion (Decimal.isRounded_toBinary64 _) hnextPos.le (by linarith)
  exact Quantity.real_lt_real.2 <| Binary64.lt_of_value_lt hfinish hw <|
    lt_of_closeTo magnitudeAt_one_le hcursor hpos hgap hnextLe
      (cursor.isRounded_toBinary64.error hx) ((secondsOf s).isRounded_toBinary64.error hy)
      ((Binary64.isRounded_add hx hy).error hfinish) ((Decimal.isRounded_toBinary64 _).error hw)

end Step

/-! ## Schedules -/

variable {γ cursor total : Decimal} {segments : List Segment}

/-- With a real gap the segments of a schedule of at most a million seconds
succeed each other. -/
theorem succeed_assignFrom (hγ : 9 / 10000 ≤ γ.value) (hcursor : 0 ≤ cursor.value)
    (hends : ∀ e ∈ ends γ cursor segments, e.value ≤ 1000001) :
    Timeline.Succeed (assignFrom γ cursor total segments).1 := by
  induction segments generalizing cursor total with
  | nil => exact ⟨by simp [assignFrom], .nil⟩
  | cons s rest ih =>
    rw [ends_cons, List.forall_mem_cons] at hends
    have hstepPos : 0 < (secondsOf s + γ).value :=
      Decimal.add_pos_iff.2 (by linarith [(secondsOf_bounds s).1])
    have hnextPos : 0 < (cursor + (secondsOf s + γ)).value := Decimal.add_pos_iff.2 (by linarith)
    rw [assignFrom_cons]
    have hrest : Timeline.Succeed (assignFrom γ (cursor + (secondsOf s + γ))
        (total.larger (cursor + secondsOf s)) rest).1 :=
      ih hnextPos.le hends.2
    refine ⟨List.forall_mem_cons.2 ⟨start_le_finish hcursor hends.1, hrest.start_le_finish⟩, ?_⟩
    cases rest with
    | nil => exact .singleton _
    | cons t rest =>
      have ht := hends.2 _ (by rw [ends_cons]; exact List.mem_cons_self ..)
      exact List.isChain_cons_cons.2 ⟨finish_lt_start hcursor hγ hends.1 ht, hrest.isChain⟩

theorem value_le_of_toBinary64_le {d : Decimal} (h : d.toBinary64 ≤ 1000000) :
    d.value ≤ 1000001 := by
  by_contra hlt
  have hkey := (Binary64.isNearest_ofInt 1000001).isRounded.key_mono d.isRounded_toBinary64
    (by exact_mod_cast (not_le.1 hlt).le)
  have hle := (Binary64.le_iff_key.1 h).2.2
  have hmillion : (1000000 : Binary64).key < (Binary64.ofInt 1000001).key := by decide +kernel
  omega

/-- A gap of a millisecond is one also in decimals, but for a tenth of it. -/
theorem le_value_of_le {x : Binary64} {γ : Decimal} (hx : 0.001 ≤ x) (h : x.toDecimal? = some γ) :
    9 / 10000 ≤ γ.value := by
  have hback : γ.toBinary64 = x := Quantity.toBinary64_toDecimal? (q := .real x) h
  have hγ := γ.isRounded_toBinary64
  by_contra hlt
  have hvalue : (⟨false, 9, -4⟩ : Decimal).value = 9 / 10000 := by norm_num [Decimal.value]
  have hkey := hγ.key_mono (Decimal.isRounded_toBinary64 ⟨false, 9, -4⟩)
    (hvalue ▸ (not_le.1 hlt).le)
  have hle := (Binary64.le_iff_key.1 hx).2.2
  have hmillisecond : (⟨false, 9, -4⟩ : Decimal).toBinary64.key < (0.001 : Binary64).key := by
    decide +kernel
  rw [hback] at hkey
  omega

theorem succeed_assign (hγ : 9 / 10000 ≤ γ.value) (htotal : (assign γ segments).2 ≤ 1000000) :
    Timeline.Succeed (assign γ segments).1 := by
  rcases eq_or_ne segments [] with rfl | hne
  · exact ⟨by simp [assign, assignFrom], .nil⟩
  obtain ⟨last, -, -, hle, hlast⟩ := exists_last γ hne
  rw [hlast] at htotal
  exact succeed_assignFrom hγ (by simp) fun e he => (hle e he).trans (value_le_of_toBinary64_le htotal)

end Schedule

/-- Segments that are placed keep their times, and so their order. -/
theorem Timeline.Succeed.placed {timed placed : List Segment} (h : Succeed timed)
    (hplaced : List.Forall₂ (fun s t => t = { s with position := t.position }) timed placed) :
    Succeed placed := by
  induction hplaced with
  | nil => exact h
  | @cons s s' rest rest' hs hrest ih =>
    have hrest' := ih h.tail
    have htimes : s'.start = s.start ∧ s'.finish = s.finish := by
      rw [hs]
      exact ⟨rfl, rfl⟩
    refine ⟨List.forall_mem_cons.2 ⟨?_, hrest'.start_le_finish⟩, ?_⟩
    · rw [htimes.1, htimes.2]
      exact h.start_le_finish s (List.mem_cons_self ..)
    cases hrest with
    | nil => exact .singleton _
    | @cons t t' _ _ ht _ =>
      refine List.isChain_cons_cons.2 ⟨?_, hrest'.isChain⟩
      rw [htimes.2, ht]
      exact (List.isChain_cons_cons.1 h.isChain).1

end KineticText
