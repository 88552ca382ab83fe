import KineticText.Proofs.Number.FifteenDigits
import KineticText.Proofs.Outcome
import KineticText.Proofs.Schedule.Total

/-!
# The total read off a schedule

A scheduled segment has its start and its duration as doubles only.
`totalDuration` makes decimals of these again and adds them up; `assign` takes
the largest end before anything is rounded to a double.  Where all times have at most
six places behind the point and no segment starts a thousand million seconds or
more from zero, each start and each duration has at most fifteen digits and comes
back from its double, so that both totals are the same (`totalDuration_assign`).

There are three groups: decimals with few places, the ends of a schedule, and
the total.
-/

namespace KineticText

/-! ## Few places -/

/-- An exact sum is not much larger than the rounded one. -/
theorem Decimal.abs_add_le (a b : Decimal) : |a.value + b.value| ≤ 2 * |(a + b).value| := by
  have herror := add_error a b
  have hdistance := abs_sub_abs_le_abs_sub (a.value + b.value) (a + b).value
  have hnonneg := abs_nonneg (a.value + b.value)
  rw [abs_sub_comm] at hdistance
  linarith

/-- A small sum of decimals with at most `p` places is exact. -/
theorem Decimal.value_add_of_lt {a b : Decimal} {p : ℕ} (ha : HasPlaces p a.value)
    (hb : HasPlaces p b.value) (h : |(a + b).value| < 10 ^ (27 - (p : ℤ))) :
    (a + b).value = a.value + b.value := by
  refine value_add (p := p) ⟨ha.add hb, ?_⟩
  have hten : (10 : ℚ) ^ (28 - (p : ℤ)) = 10 * 10 ^ (27 - (p : ℤ)) := by
    rw [← zpow_one_add₀ (by norm_num)]
    congr 1
    omega
  have hsum := abs_add_le a b
  have hnonneg := abs_nonneg (a + b).value
  linarith

theorem Tag.exactSeconds_bounds (t : Tag) : 0 < t.exactSeconds ∧ t.exactSeconds ≤ 50 := by
  obtain ⟨⟨hentry, hentryLe⟩, ⟨hdisplay, hdisplayLe⟩, hexit, hexitLe⟩ := t.times_bounds
  rw [exactSeconds]
  constructor <;> linarith

namespace Schedule

variable {γ cursor : Decimal} {s : Segment} {segments timed : List Segment} {k : ℕ}

theorem hasPlaces_secondsOf (h : ∀ t ∈ s.tag, t.TimesHavePlaces 6) :
    HasPlaces 6 (secondsOf s).value := by
  have hbound : |s.exactSeconds| < 10 ^ (28 - ((6 : ℕ) : ℤ)) := by
    rw [Segment.exactSeconds]
    cases s.tag with
    | none => norm_num
    | some t =>
      obtain ⟨hpos, hle⟩ := t.exactSeconds_bounds
      rw [abs_of_pos hpos]
      exact hle.trans_lt (by norm_num)
  rw [(Segment.standsFor_secondsOf h hbound).value_eq]
  exact Segment.hasPlaces_exactSeconds h

/-- The gap and the times of the tags have at most six places behind the point,
and every segment starts less than a thousand million seconds from zero. -/
structure FitsDoubles (γ : Decimal) (segments : List Segment) : Prop where
  gap : HasPlaces 6 γ.value
  tags : ∀ s ∈ segments, ∀ t ∈ s.tag, t.TimesHavePlaces 6
  cursor : ∀ k < segments.length, |(cursorAfter γ (.ofInt 0) (segments.take k)).value| < 10 ^ 9

/-! ## The ends of a schedule -/

/-- A step between two starts in range is small, so that neither it nor the next
start is rounded. -/
theorem hasPlaces_next (hγ : HasPlaces 6 γ.value) (hs : HasPlaces 6 (secondsOf s).value)
    (hcursor : HasPlaces 6 cursor.value) (hbound : |cursor.value| < 10 ^ 9)
    (hnext : |(cursor + (secondsOf s + γ)).value| < 10 ^ 9) :
    HasPlaces 6 (cursor + (secondsOf s + γ)).value := by
  have hstep : |(secondsOf s + γ).value| < 10 ^ (27 - ((6 : ℕ) : ℤ)) := by
    have hsum := Decimal.abs_add_le cursor (secondsOf s + γ)
    have hdifference := abs_sub (cursor.value + (secondsOf s + γ).value) cursor.value
    rw [add_sub_cancel_left] at hdifference
    norm_num
    linarith
  have hstepPlaces : HasPlaces 6 (secondsOf s + γ).value := by
    rw [Decimal.value_add_of_lt hs hγ hstep]
    exact hs.add hγ
  rw [Decimal.value_add_of_lt hcursor hstepPlaces (hnext.trans (by norm_num))]
  exact hcursor.add hstepPlaces

theorem FitsDoubles.hasPlaces_cursor (h : FitsDoubles γ segments) (hk : k < segments.length) :
    HasPlaces 6 (cursorAfter γ (.ofInt 0) (segments.take k)).value := by
  induction k with
  | zero => simpa using HasPlaces.intCast 6 0
  | succ k ih =>
    have hs : segments[k]? = some segments[k] := List.getElem?_eq_getElem (by omega)
    have hnext := h.cursor (k + 1) hk
    rw [List.take_add_one, hs, Option.toList_some, cursorAfter_concat] at hnext ⊢
    exact hasPlaces_next h.gap (hasPlaces_secondsOf (h.tags _ (List.mem_of_getElem? hs)))
      (ih (by omega)) (h.cursor k (by omega)) hnext

/-- The end of a segment is found again from its two doubles. -/
theorem exists_endOf (hs : HasPlaces 6 (secondsOf s).value) (hcursor : HasPlaces 6 cursor.value)
    (hbound : |cursor.value| < 10 ^ 9) :
    ∃ e, endOf (timedAt cursor s) = .ok e ∧ e.value = (cursor + secondsOf s).value := by
  obtain ⟨hpos, hle⟩ := secondsOf_bounds s
  obtain ⟨start, hstart, hstartEq⟩ := Decimal.exists_toDecimal?_of_hasPlaces (by norm_num) hcursor
    (show _ < 10 ^ 15 by linarith)
  obtain ⟨duration, hduration, hdurationEq⟩ :=
    Decimal.exists_toDecimal?_of_hasPlaces (by norm_num) hs
      (show _ < 10 ^ 15 by rw [abs_of_pos hpos]; linarith)
  have hfits : Fits 6 (cursor.value + (secondsOf s).value) := by
    refine ⟨hcursor.add hs, ?_⟩
    have hsum := abs_add_le cursor.value (secondsOf s).value
    rw [abs_of_pos hpos] at hsum
    norm_num
    linarith
  refine ⟨start + duration, ?_, ?_⟩
  · simp [endOf, timedAt, Quantity.toDatum, Datum.toDecimal, hstart, hduration, bind, Except.bind,
      pure, Except.pure]
  · rw [Decimal.value_add hfits, ← hstartEq, ← hdurationEq]
    rw [← hstartEq, ← hdurationEq] at hfits
    exact Decimal.value_add hfits

theorem exists_mapM_endOf {es : List Decimal}
    (h : List.Forall₂ (fun e s => ∃ e', endOf s = .ok e' ∧ e'.value = e.value) es timed) :
    ∃ ds, timed.mapM endOf = .ok ds ∧ ds.map Decimal.value = es.map Decimal.value := by
  induction h with
  | nil => exact ⟨[], rfl, rfl⟩
  | cons hhead _ ih =>
    obtain ⟨d, hd, hvalue⟩ := hhead
    obtain ⟨ds, hds, hvalues⟩ := ih
    refine ⟨d :: ds, ?_, by rw [List.map_cons, List.map_cons, hvalue, hvalues]⟩
    rw [List.mapM_cons, hd, hds]
    rfl

theorem FitsDoubles.exists_mapM (h : FitsDoubles γ segments) :
    ∃ ds, (assign γ segments).1.mapM endOf = .ok ds ∧
      ds.map Decimal.value = (ends γ (.ofInt 0) segments).map Decimal.value := by
  have htimed : (assign γ segments).1 =
      segments.mapIdx fun k s => timedAt (cursorAfter γ (.ofInt 0) (segments.take k)) s :=
    fst_assignFrom ..
  rw [htimed]
  apply exists_mapM_endOf
  refine List.forall₂_iff_get.2 ⟨by simp [ends], ?_⟩
  intro k hk _
  have hk : k < segments.length := by simpa [ends] using hk
  have hs := hasPlaces_secondsOf (h.tags _ (List.getElem_mem hk))
  simpa [ends] using exists_endOf hs (h.hasPlaces_cursor hk) (h.cursor k hk)

/-! ## The total -/

/-- The total made of the rounded times is the one that was rounded at the
end. -/
theorem totalDuration_assign {γ : Decimal} {segments : List Segment} (h : FitsDoubles γ segments) :
    totalDuration (assign γ segments).1 = .ok (assign γ segments).2 := by
  rcases eq_or_ne segments [] with rfl | hne
  · show Except.ok (0 : Binary64) = .ok (Decimal.ofInt 0).toBinary64
    rw [Decimal.toBinary64_ofInt]
    rfl
  obtain ⟨last, hlast, hpos, hle, htotal⟩ := exists_last γ hne
  obtain ⟨ds, hds, hvalues⟩ := h.exists_mapM
  have hlastValue : last.value ∈ ds.map Decimal.value := by
    rw [hvalues]
    exact List.mem_map_of_mem hlast
  cases ds with
  | nil => cases hlastValue
  | cons d ds =>
    obtain ⟨hmem, hlarger⟩ := foldl_larger ds d
    have hvalue : (ds.foldl Decimal.larger d).value = last.value := by
      apply le_antisymm
      · have hend := List.mem_map_of_mem (f := Decimal.value) hmem
        rw [hvalues] at hend
        obtain ⟨e, he, heq⟩ := List.mem_map.1 hend
        rw [← heq]
        exact hle e he
      · obtain ⟨x, hx, heq⟩ := List.mem_map.1 hlastValue
        rw [← heq]
        exact hlarger x hx
    rw [totalDuration, hds, htotal]
    -- Neither total shows a sign.
    refine congrArg Except.ok (Decimal.toBinary64_congr (congrArg _ hvalue) ?_)
    rw [Decimal.negative_eq_false_of_pos hpos, Decimal.negative_eq_false_of_pos (hvalue ▸ hpos)]

/-- Three tenths of a second, and eleven. -/
def tenths : List Segment :=
  [{ text := ['a'], index := 0, tag := some ⟨.real 0.1, .left, .real 0.1, .right, .real 0.1,
      by decide +kernel, by decide +kernel, by decide +kernel⟩ },
    { text := ['b'], index := 1, tag := some ⟨.real 0.3, .left, .real 0.5, .right, .real 0.3,
      by decide +kernel, by decide +kernel, by decide +kernel⟩ }]

theorem fitsDoubles_tenths : FitsDoubles ⟨true, 5, -1⟩ tenths where
  gap := ⟨-500000, by norm_num [Decimal.value]⟩
  tags := by
    have hplaces {q : Quantity} (n : ℕ) (h : q.seconds = ⟨false, n, -1⟩) :
        HasPlaces 6 q.seconds.value := by
      refine ⟨n * 100000, ?_⟩
      rw [h, Decimal.value_of_nonneg rfl]
      norm_num
      ring
    simp only [tenths, List.forall_mem_cons, Option.mem_some_iff, forall_eq']
    refine ⟨⟨hplaces 1 ?_, hplaces 1 ?_, hplaces 1 ?_⟩, ⟨hplaces 3 ?_, hplaces 5 ?_, hplaces 3 ?_⟩,
      by simp⟩ <;> decide +kernel
  cursor := by
    intro k hk
    simp only [tenths, List.length_cons, List.length_nil] at hk
    interval_cases k
    · simp
    · have hcursor : cursorAfter ⟨true, 5, -1⟩ (.ofInt 0) (tenths.take 1) = ⟨true, 2, -1⟩ := by
        decide +kernel
      norm_num [hcursor, Decimal.value]

/-- The second segment starts before zero. -/
theorem totalDuration_assign_tenths :
    FitsDoubles ⟨true, 5, -1⟩ tenths ∧ totalDuration (assign ⟨true, 5, -1⟩ tenths).1 = .ok 0.9 := by
  have htotal := totalDuration_assign fitsDoubles_tenths
  have hvalue : (assign ⟨true, 5, -1⟩ tenths).2 = 0.9 := by decide +kernel
  rw [hvalue] at htotal
  exact ⟨fitsDoubles_tenths, htotal⟩

end Schedule

end KineticText
