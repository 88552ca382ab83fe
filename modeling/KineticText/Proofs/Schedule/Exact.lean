import KineticText.Proofs.Number.Sum
import KineticText.Proofs.Schedule.Cursor
import KineticText.Proofs.Tag.Language

/-!
# Exact schedules

A schedule adds decimals of 28 significant digits.  As long as the exact times
fit into these digits, none of the sums is rounded: the cursor is the exact
start of every segment, whatever stands in front of it, and each time in the
result is the double nearest to the exact one (`assign_exact`).

There are three groups: the seconds of a segment, the cursor, and the schedule.
-/

namespace KineticText

/-! ## Seconds -/

theorem Quantity.inRange_seconds {limit : ℕ} {q : Quantity} (h : q.inRange limit = true) :
    q.seconds.inRange limit = true := by
  unfold Quantity.inRange at h
  unfold Quantity.seconds
  cases hd : q.toDecimal? with
  | none => simp [hd] at h
  | some d => simpa [hd] using h

theorem Quantity.value_seconds_whole (n : ℤ) : (whole n).seconds.value = n :=
  Decimal.value_ofInt n

namespace Tag

/-- The exact seconds of a tag. -/
def exactSeconds (t : Tag) : ℚ :=
  t.entrySpeed.seconds.value + t.displayDuration.seconds.value + t.exitSpeed.seconds.value

/-- The times of the tag have at most `p` places behind the point. -/
structure TimesHavePlaces (p : ℕ) (t : Tag) : Prop where
  entrySpeed : HasPlaces p t.entrySpeed.seconds.value
  displayDuration : HasPlaces p t.displayDuration.seconds.value
  exitSpeed : HasPlaces p t.exitSpeed.seconds.value

theorem seconds_pos_of_inRange {limit : ℕ} {q : Quantity} (h : q.inRange limit = true) :
    0 < q.seconds.value :=
  (inRange_iff.1 (Quantity.inRange_seconds h)).1

/-- The sum of the first two times is smaller than that of all three, so it is
not rounded either. -/
theorem standsFor_seconds {p : ℕ} {t : Tag} (hplaces : t.TimesHavePlaces p)
    (hbound : |t.exactSeconds| < 10 ^ (28 - (p : ℤ))) :
    Decimal.StandsFor t.exactSeconds t.seconds := by
  have hentry := seconds_pos_of_inRange t.entrySpeed_inRange
  have hdisplay := seconds_pos_of_inRange t.displayDuration_inRange
  have hexit := seconds_pos_of_inRange t.exitSpeed_inRange
  have hfirst := hplaces.entrySpeed.add hplaces.displayDuration
  refine ((Decimal.standsFor_of_pos hentry).add ⟨hfirst, ?_⟩).add
    ⟨hfirst.add hplaces.exitSpeed, hbound⟩
  rw [exactSeconds, abs_of_pos (by positivity)] at hbound
  rw [abs_of_pos (by positivity)]
  linarith

end Tag

namespace Segment

/-- The exact seconds of a segment: two without a tag. -/
def exactSeconds (s : Segment) : ℚ :=
  match s.tag with
  | some t => t.exactSeconds
  | none => 2

theorem hasPlaces_exactSeconds {p : ℕ} {s : Segment} (h : ∀ t ∈ s.tag, t.TimesHavePlaces p) :
    HasPlaces p s.exactSeconds := by
  rw [exactSeconds]
  cases htag : s.tag with
  | none => exact HasPlaces.intCast p 2
  | some t =>
    have ht := h t htag
    exact (ht.entrySpeed.add ht.displayDuration).add ht.exitSpeed

theorem standsFor_secondsOf {p : ℕ} {s : Segment} (h : ∀ t ∈ s.tag, t.TimesHavePlaces p)
    (hbound : |s.exactSeconds| < 10 ^ (28 - (p : ℤ))) :
    Decimal.StandsFor s.exactSeconds (Schedule.secondsOf s) := by
  rw [exactSeconds] at hbound ⊢
  rw [Schedule.secondsOf]
  cases htag : s.tag with
  | none =>
    exact ⟨by norm_num [Decimal.value, Schedule.untaggedSeconds],
      by norm_num [Schedule.untaggedSeconds]⟩
  | some t =>
    simp only [htag] at hbound
    exact Tag.standsFor_seconds (h t htag) hbound

end Segment

namespace Schedule

/-- The exact start of segment `k`: the seconds of those in front of it and as
many gaps. -/
def exactStart (g : ℚ) (segments : List Segment) (k : ℕ) : ℚ :=
  ((segments.take k).map Segment.exactSeconds).sum + k * g

/-- The largest exact end of a segment, and zero if none is larger. -/
def exactTotal (g : ℚ) (segments : List Segment) : ℚ :=
  (segments.mapIdx fun k s => exactStart g segments k + s.exactSeconds).foldl max 0

/-- The times of the segments, the gap, and all exact times of the schedule fit
into 28 digits, `p` of them behind the point. -/
structure FitsDigits (p : ℕ) (g : ℚ) (segments : List Segment) : Prop where
  gap : HasPlaces p g
  tags : ∀ s ∈ segments, ∀ t ∈ s.tag, t.TimesHavePlaces p
  seconds : ∀ s ∈ segments, |s.exactSeconds| < 10 ^ (28 - (p : ℤ))
  step : ∀ s ∈ segments, |s.exactSeconds + g| < 10 ^ (28 - (p : ℤ))
  start : ∀ k < segments.length, |exactStart g segments k| < 10 ^ (28 - (p : ℤ))
  finish : ∀ k s, segments[k]? = some s →
    |exactStart g segments k + s.exactSeconds| < 10 ^ (28 - (p : ℤ))

variable {p : ℕ} {γ : Decimal} {segments : List Segment} {s : Segment} {k : ℕ}

theorem exactStart_succ {g : ℚ} (hs : segments[k]? = some s) :
    exactStart g segments (k + 1) = exactStart g segments k + (s.exactSeconds + g) := by
  rw [exactStart, exactStart, List.take_add_one, hs]
  simp
  ring

theorem FitsDigits.hasPlaces_exactStart {g : ℚ} (h : FitsDigits p g segments)
    (hk : k ≤ segments.length) : HasPlaces p (exactStart g segments k) := by
  induction k with
  | zero => simpa [exactStart] using HasPlaces.intCast p 0
  | succ k ih =>
    have hs : segments[k]? = some segments[k] := List.getElem?_eq_getElem hk
    rw [exactStart_succ hs]
    exact (ih (by omega)).add
      ((Segment.hasPlaces_exactSeconds (h.tags _ (List.mem_of_getElem? hs))).add h.gap)

theorem FitsDigits.standsFor_secondsOf (h : FitsDigits p γ.value segments) (hs : s ∈ segments) :
    Decimal.StandsFor s.exactSeconds (secondsOf s) :=
  Segment.standsFor_secondsOf (h.tags s hs) (h.seconds s hs)

/-- The step from one segment to the next is exact. -/
theorem FitsDigits.value_step (h : FitsDigits p γ.value segments) (hs : s ∈ segments) :
    (secondsOf s + γ).value = s.exactSeconds + γ.value :=
  ((h.standsFor_secondsOf hs).add
    ⟨(Segment.hasPlaces_exactSeconds (h.tags s hs)).add h.gap, h.step s hs⟩).value_eq

/-- The cursor is the exact start of the segment it stands at. -/
theorem FitsDigits.standsFor_cursorAfter (h : FitsDigits p γ.value segments)
    (hk : k < segments.length) :
    Decimal.StandsFor (exactStart γ.value segments k)
      (cursorAfter γ (.ofInt 0) (segments.take k)) := by
  induction k with
  | zero => simpa [exactStart] using Decimal.standsFor_ofInt 0
  | succ k ih =>
    have hs : segments[k]? = some segments[k] := List.getElem?_eq_getElem (by omega)
    have hmem := List.mem_of_getElem? hs
    have hplaces := h.hasPlaces_exactStart hk.le
    have hbound := h.start _ hk
    rw [exactStart_succ hs, ← h.value_step hmem] at hplaces hbound ⊢
    rw [List.take_add_one, hs, Option.toList_some, cursorAfter_concat]
    exact (ih (by omega)).add ⟨hplaces, hbound⟩

theorem FitsDigits.standsFor_end (h : FitsDigits p γ.value segments) (hs : segments[k]? = some s) :
    Decimal.StandsFor (exactStart γ.value segments k + s.exactSeconds)
      (cursorAfter γ (.ofInt 0) (segments.take k) + secondsOf s) := by
  have hk : k < segments.length := (List.getElem?_eq_some_iff.1 hs).1
  have hmem := List.mem_of_getElem? hs
  have hplaces :=
    (h.hasPlaces_exactStart hk.le).add (Segment.hasPlaces_exactSeconds (h.tags s hmem))
  have hbound := h.finish k s hs
  rw [← (h.standsFor_secondsOf hmem).value_eq] at hplaces hbound ⊢
  exact (h.standsFor_cursorAfter hk).add ⟨hplaces, hbound⟩

/-! ## Schedules -/

/-- The larger of two decimals again and again is the largest of their
numbers. -/
theorem standsFor_foldl_larger {qs : List ℚ} {ds : List Decimal} {q : ℚ} {d : Decimal}
    (h : List.Forall₂ Decimal.StandsFor qs ds) (hfirst : Decimal.StandsFor q d) :
    Decimal.StandsFor (qs.foldl max q) (ds.foldl Decimal.larger d) := by
  induction h generalizing q d with
  | nil => exact hfirst
  | cons hhead _ ih => exact ih (hfirst.larger hhead)

theorem FitsDigits.forall₂_ends (h : FitsDigits p γ.value segments) :
    List.Forall₂ Decimal.StandsFor
      (segments.mapIdx fun k s => exactStart γ.value segments k + s.exactSeconds)
      (ends γ (.ofInt 0) segments) := by
  refine List.forall₂_iff_get.2 ⟨by simp [ends], ?_⟩
  intro k hk _
  have hs : segments[k]? = some (segments.get ⟨k, by simpa using hk⟩) :=
    List.getElem?_eq_getElem _
  simpa [ends] using h.standsFor_end hs

/-- No rounding error gathers in a schedule: every start, every duration and
the total is the double nearest to the exact time, and nothing else about the
segments is changed. -/
theorem assign_exact (h : FitsDigits p γ.value segments) :
    (assign γ segments).1.length = segments.length ∧
      (∀ k s, segments[k]? = some s → ∃ start duration,
        (assign γ segments).1[k]? =
            some { s with start := .real start, duration := .real duration } ∧
          Binary64.IsNearest (exactStart γ.value segments k) start ∧
          Binary64.IsNearest s.exactSeconds duration ∧
          ∀ t ∈ s.tag, duration = t.totalDuration) ∧
      Binary64.IsNearest (exactTotal γ.value segments) (assign γ segments).2 := by
  have hsegments : (assign γ segments).1 =
      segments.mapIdx fun k s => timedAt (cursorAfter γ (.ofInt 0) (segments.take k)) s :=
    fst_assignFrom ..
  have htotal : (assign γ segments).2 =
      ((ends γ (.ofInt 0) segments).foldl Decimal.larger (.ofInt 0)).toBinary64 :=
    congrArg Decimal.toBinary64 (snd_assignFrom ..)
  refine ⟨by rw [hsegments, List.length_mapIdx], ?_, ?_⟩
  · intro k s hs
    have hk : k < segments.length := (List.getElem?_eq_some_iff.1 hs).1
    refine ⟨(cursorAfter γ (.ofInt 0) (segments.take k)).toBinary64, (secondsOf s).toBinary64, ?_,
      (h.standsFor_cursorAfter hk).isNearest,
      (h.standsFor_secondsOf (List.mem_of_getElem? hs)).isNearest, ?_⟩
    · rw [hsegments, List.getElem?_mapIdx, hs]
      rfl
    · intro t ht
      rw [secondsOf, Option.mem_def.1 ht]
      rfl
  · rw [htotal]
    exact (standsFor_foldl_larger h.forall₂_ends (Decimal.standsFor_ofInt 0)).isNearest

/-- One second in, two on display, one out. -/
def fourSeconds : Tag :=
  ⟨.whole 1, .left, .whole 2, .right, .whole 1, by decide +kernel, by decide +kernel,
    by decide +kernel⟩

/-- A tagged segment and one without a tag. -/
def twoSegments : List Segment :=
  [{ text := ['A'], index := 0, tag := some fourSeconds }, { text := ['B'], index := 1 }]

theorem exactSeconds_fourSeconds : fourSeconds.exactSeconds = 4 := by
  norm_num [Tag.exactSeconds, fourSeconds, Quantity.value_seconds_whole]

theorem fitsDigits_twoSegments : FitsDigits 1 (-1 / 2) twoSegments where
  gap := ⟨-5, by norm_num⟩
  tags := by
    have hplaces (n : ℤ) : HasPlaces 1 (Quantity.whole n).seconds.value := by
      rw [Quantity.value_seconds_whole]
      exact HasPlaces.intCast 1 n
    simpa [twoSegments] using
      (⟨hplaces 1, hplaces 2, hplaces 1⟩ : fourSeconds.TimesHavePlaces 1)
  seconds := by norm_num [twoSegments, Segment.exactSeconds, exactSeconds_fourSeconds]
  step := by norm_num [twoSegments, Segment.exactSeconds, exactSeconds_fourSeconds]
  start := by
    intro k hk
    simp only [twoSegments, List.length_cons, List.length_nil] at hk
    interval_cases k <;>
      norm_num [exactStart, twoSegments, Segment.exactSeconds, exactSeconds_fourSeconds]
  finish := by
    intro k s hs
    match k with
    | 0 =>
      cases hs
      norm_num [exactStart, twoSegments, Segment.exactSeconds, exactSeconds_fourSeconds]
    | 1 =>
      cases hs
      norm_num [exactStart, twoSegments, Segment.exactSeconds, exactSeconds_fourSeconds]

/-- The second one starts half a second before the first one ends. -/
theorem assign_exact_overlapping :
    FitsDigits 1 (⟨true, 5, -1⟩ : Decimal).value twoSegments ∧
      (assign ⟨true, 5, -1⟩ twoSegments).1.length = 2 ∧
      (∃ start duration, (assign ⟨true, 5, -1⟩ twoSegments).1[1]? =
          some { text := ['B'], index := 1, start := .real start, duration := .real duration } ∧
        Binary64.IsNearest (7 / 2) start ∧ Binary64.IsNearest 2 duration) ∧
      Binary64.IsNearest (11 / 2) (assign ⟨true, 5, -1⟩ twoSegments).2 := by
  have hgap : (⟨true, 5, -1⟩ : Decimal).value = -1 / 2 := by norm_num [Decimal.value]
  have hfits := hgap ▸ fitsDigits_twoSegments
  obtain ⟨hlength, htimes, htotal⟩ := assign_exact hfits
  obtain ⟨start, duration, hget, hstart, hduration, -⟩ := htimes 1 _ rfl
  refine ⟨hfits, hlength, ⟨start, duration, hget, ?_, hduration⟩, ?_⟩
  · convert hstart using 1
    norm_num [hgap, exactStart, twoSegments, Segment.exactSeconds, exactSeconds_fourSeconds]
  · convert htotal using 1
    norm_num [hgap, exactTotal, exactStart, twoSegments, Segment.exactSeconds,
      exactSeconds_fourSeconds]

end Schedule

end KineticText
