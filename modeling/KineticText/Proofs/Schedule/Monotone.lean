import KineticText.Proofs.Datum.Number
import KineticText.Proofs.Number.RoundedOrder
import KineticText.Proofs.Schedule.Total

/-!
# Schedules that never go back

With a gap that is not negative no segment starts before the one in front of it,
whatever is lost by rounding (`assign_monotone`).  Every cursor and every
duration is itself a decimal of 28 digits, so that nothing is lost of the
smaller one when a sum is rounded; and rounding keeps the order of sums, so that
a segment ends where the next one starts, or before.  So the last end is the
largest, and a further segment makes the total no smaller.

There are four groups: the gap, 28 digits, one step, and schedules.
-/

namespace KineticText

namespace Schedule

variable {γ cursor total : Decimal} {s : Segment} {segments : List Segment}

/-! ## The gap -/

/-- A gap that is accepted is the decimal of a finite double. -/
theorem exists_gapOf {gap : Datum} {x : Binary64} (h : gap.readNumber "gap" = .ok x) :
    ∃ d, x.toDecimal? = some d ∧ gapOf gap = .ok d := by
  have hfinite := Datum.isFinite_of_readNumber h
  cases x with
  | finite negative m =>
    refine ⟨_, rfl, ?_⟩
    simp only [gapOf, h]
    rfl
  | infinity => cases hfinite
  | nan => cases hfinite

/-- The decimal of a double that is not negative is not negative. -/
theorem value_nonneg_of_toDecimal? {x : Binary64} {d : Decimal} (hx : 0 ≤ x)
    (h : x.toDecimal? = some d) : 0 ≤ d.value := by
  cases x with
  | finite negative m =>
    obtain rfl : Binary64.writtenDecimal negative m = d := Option.some.inj h
    cases negative with
    | false =>
      rw [Decimal.value_of_nonneg (Binary64.writtenDecimal_negative ..)]
      positivity
    | true =>
      -- With a sign it is the zero that equals the other one.
      have hkey : (0 : Binary64).key ≤ -(m.rank : ℤ) := (Binary64.le_iff_key.1 hx).2.2
      rw [Binary64.key_zero] at hkey
      rw [Binary64.writtenDecimal_of_rank_eq_zero true (by omega), Decimal.value_eq_zero rfl]
  | infinity => cases h
  | nan => cases h

/-! ## 28 digits -/

theorem coefficient_secondsOf_lt (s : Segment) : (secondsOf s).coefficient < 10 ^ 28 := by
  unfold secondsOf
  cases s.tag with
  | some t => exact Decimal.coefficient_add_lt ..
  | none => decide

theorem coefficient_cursorAfter_lt (h : cursor.coefficient < 10 ^ 28) (γ : Decimal)
    (segments : List Segment) : (cursorAfter γ cursor segments).coefficient < 10 ^ 28 := by
  induction segments generalizing cursor with
  | nil => exact h
  | cons s segments ih =>
    rw [cursorAfter_cons]
    exact ih (Decimal.coefficient_add_lt ..)

/-! ## One step -/

theorem cursor_le_end (hcursor : cursor.coefficient < 10 ^ 28) (s : Segment) :
    cursor.value ≤ (cursor + secondsOf s).value :=
  Decimal.le_add hcursor (secondsOf_bounds s).1.le

/-- A segment ends where the next one starts, or before. -/
theorem end_le_cursor (hγ : 0 ≤ γ.value) (cursor : Decimal) (s : Segment) :
    (cursor + secondsOf s).value ≤ (cursor + (secondsOf s + γ)).value := by
  have hstep := Decimal.le_add (coefficient_secondsOf_lt s) hγ
  exact Decimal.add_mono (by linarith)

theorem le_cursorAfter (hγ : 0 ≤ γ.value) (hcursor : cursor.coefficient < 10 ^ 28)
    (segments : List Segment) : cursor.value ≤ (cursorAfter γ cursor segments).value := by
  induction segments generalizing cursor with
  | nil => exact le_rfl
  | cons s segments ih =>
    rw [cursorAfter_cons]
    calc cursor.value ≤ (cursor + secondsOf s).value := cursor_le_end hcursor s
      _ ≤ (cursor + (secondsOf s + γ)).value := end_le_cursor hγ cursor s
      _ ≤ _ := ih (Decimal.coefficient_add_lt ..)

/-! ## Schedules -/

/-- No segment starts before the one in front of it. -/
theorem pairwise_start (hγ : 0 ≤ γ.value) (hcursor : cursor.coefficient < 10 ^ 28)
    (total : Decimal) (segments : List Segment) :
    ((assignFrom γ cursor total segments).1.map Segment.start).Pairwise (· ≤ ·) := by
  induction segments generalizing cursor total with
  | nil => exact .nil
  | cons s segments ih =>
    have hnext : (cursor + (secondsOf s + γ)).coefficient < 10 ^ 28 :=
      Decimal.coefficient_add_lt ..
    rw [assignFrom_cons, List.map_cons]
    refine List.pairwise_cons.2 ⟨fun start hstart => ?_, ih hnext _⟩
    obtain ⟨t, ht, rfl⟩ := List.mem_map.1 hstart
    rw [fst_assignFrom, List.mem_mapIdx] at ht
    obtain ⟨k, hk, rfl⟩ := ht
    refine Quantity.real_le_real.2 (Decimal.toBinary64_mono ?_)
    calc cursor.value ≤ (cursor + secondsOf s).value := cursor_le_end hcursor s
      _ ≤ (cursor + (secondsOf s + γ)).value := end_le_cursor hγ cursor s
      _ ≤ _ := le_cursorAfter hγ hnext _

/-- The last segment has the largest end. -/
theorem le_lastEnd (hγ : 0 ≤ γ.value) (hcursor : cursor.coefficient < 10 ^ 28)
    (init : List Segment) (s : Segment) :
    ∀ e ∈ ends γ cursor (init ++ [s]),
      e.value ≤ (cursorAfter γ cursor init + secondsOf s).value := by
  induction init generalizing cursor with
  | nil => simp [ends]
  | cons t init ih =>
    have hnext : (cursor + (secondsOf t + γ)).coefficient < 10 ^ 28 :=
      Decimal.coefficient_add_lt ..
    rw [List.cons_append, ends_cons, cursorAfter_cons]
    intro e he
    rcases List.mem_cons.1 he with rfl | he
    · calc (cursor + secondsOf t).value ≤ (cursor + (secondsOf t + γ)).value :=
            end_le_cursor hγ cursor t
        _ ≤ (cursorAfter γ (cursor + (secondsOf t + γ)) init).value := le_cursorAfter hγ hnext init
        _ ≤ _ := cursor_le_end (coefficient_cursorAfter_lt hnext γ init) s
    · exact ih hnext e he

theorem lastEnd_mem (γ cursor : Decimal) (init : List Segment) (s : Segment) :
    cursorAfter γ cursor init + secondsOf s ∈ ends γ cursor (init ++ [s]) := by
  rw [ends, List.mapIdx_concat, List.take_left]
  exact List.mem_append_right _ (List.mem_singleton_self _)

/-- The total is the end of the last segment. -/
theorem total_concat (hγ : 0 ≤ γ.value) (init : List Segment) (s : Segment) :
    0 < (cursorAfter γ (.ofInt 0) init + secondsOf s).value ∧
      (assign γ (init ++ [s])).2 = (cursorAfter γ (.ofInt 0) init + secondsOf s).toBinary64 := by
  have hne : init ++ [s] ≠ [] := List.append_ne_nil_of_right_ne_nil _ (List.cons_ne_nil s [])
  obtain ⟨last, hlast, hpos, hle, htotal⟩ := exists_last γ hne
  have hvalue : last.value = (cursorAfter γ (.ofInt 0) init + secondsOf s).value :=
    le_antisymm (le_lastEnd hγ (by decide) init s last hlast) (hle _ (lastEnd_mem ..))
  rw [hvalue] at hpos
  refine ⟨hpos, htotal.trans (Decimal.toBinary64_congr (congrArg _ hvalue) ?_)⟩
  rw [Decimal.negative_eq_false_of_pos hpos, Decimal.negative_eq_false_of_pos (hvalue ▸ hpos)]

theorem fst_assign_concat (γ : Decimal) (segments : List Segment) (s : Segment) :
    (assign γ (segments ++ [s])).1 =
      (assign γ segments).1 ++ [timedAt (cursorAfter γ (.ofInt 0) segments) s] := by
  rw [assign, assignFrom_append]
  rfl

/-- A further segment makes the total no smaller. -/
theorem total_le_total_concat (hγ : 0 ≤ γ.value) (segments : List Segment) (s : Segment) :
    (assign γ segments).2 ≤ (assign γ (segments ++ [s])).2 := by
  obtain ⟨hpos, htotal⟩ := total_concat hγ segments s
  rw [htotal]
  rcases List.eq_nil_or_concat segments with rfl | ⟨init, t, rfl⟩
  · show (Decimal.ofInt 0).toBinary64 ≤ _
    refine Decimal.toBinary64_mono ?_
    rw [Decimal.value_ofInt, Int.cast_zero]
    exact hpos.le
  · rw [List.concat_eq_append] at hpos ⊢
    rw [(total_concat hγ init t).2]
    refine Decimal.toBinary64_mono ?_
    rw [cursorAfter_concat]
    calc (cursorAfter γ (.ofInt 0) init + secondsOf t).value
        ≤ (cursorAfter γ (.ofInt 0) init + (secondsOf t + γ)).value := end_le_cursor hγ _ t
      _ ≤ _ := cursor_le_end (Decimal.coefficient_add_lt ..) s

/-- With a gap that is not negative the starts of a schedule do not decrease,
the total is the double nearest to the end of the last segment, and a further
segment changes nothing about those in front of it and does not lower the
total. -/
theorem assign_monotone {gap : Datum} {x : Binary64} (hgap : gap.readNumber "gap" = .ok x)
    (hx : 0 ≤ x) (segments : List Segment) :
    ∃ γ, gapOf gap = .ok γ ∧
      ((assign γ segments).1.map Segment.start).Pairwise (· ≤ ·) ∧
      (∀ init s, segments = init ++ [s] →
        (assign γ segments).2 = (cursorAfter γ (.ofInt 0) init + secondsOf s).toBinary64 ∧
          Binary64.IsNearest (cursorAfter γ (.ofInt 0) init + secondsOf s).value
            (assign γ segments).2) ∧
      ∀ s, (assign γ (segments ++ [s])).1 =
          (assign γ segments).1 ++ [timedAt (cursorAfter γ (.ofInt 0) segments) s] ∧
        (assign γ segments).2 ≤ (assign γ (segments ++ [s])).2 := by
  obtain ⟨γ, hdecimal, hgapOf⟩ := exists_gapOf hgap
  have hγ := value_nonneg_of_toDecimal? hx hdecimal
  refine ⟨γ, hgapOf, pairwise_start hγ (by decide) _ segments, ?_, fun s => ?_⟩
  · rintro init s rfl
    obtain ⟨hpos, htotal⟩ := total_concat hγ init s
    refine ⟨htotal, ?_⟩
    rw [htotal]
    exact (Decimal.standsFor_of_pos hpos).isNearest
  · exact ⟨fst_assign_concat γ segments s, total_le_total_concat hγ segments s⟩

/-- A third segment behind two that a tenth of a second is between. -/
theorem assign_monotone_twoSegments :
    (Datum.text "0.1").readNumber "gap" = .ok 0.1 ∧ (0 : Binary64) ≤ 0.1 ∧
      ∃ γ, gapOf (.text "0.1") = .ok γ ∧
        ((assign γ twoSegments).1.map Segment.start).Pairwise (· ≤ ·) ∧
        (assign γ twoSegments).2 ≤
          (assign γ (twoSegments ++ [{ text := ['C'], index := 2 }])).2 := by
  have hgap : (Datum.text "0.1").readNumber "gap" = .ok 0.1 := by decide +kernel
  have hx : (0 : Binary64) ≤ 0.1 := by decide +kernel
  obtain ⟨γ, hγ, hstart, -, hfurther⟩ := assign_monotone hgap hx twoSegments
  exact ⟨hgap, hx, γ, hγ, hstart, (hfurther _).2⟩

end Schedule

end KineticText
