import KineticText.Proofs.Number.Rounded
import KineticText.Proofs.Schedule.Exact
import KineticText.Proofs.Timeline.Walk

/-!
# The total of a schedule

The total is the largest end as a decimal, rounded to a double once
(`exists_last`).  The end that a timeline works with is another number: the sum
of two doubles, the start and the duration, each of them rounded by itself.  So
an end may be behind the total.  It is by rounding only: no end is behind the
total by more than the slack, four parts in `2 ^ 53` of the total or of fifty
seconds (`EndsAt.finish_le`), and the last one is not further in front of it
(`EndsAt.total_le`).

There are four groups: the seconds of a segment, roundings, ends, and the
timeline behind the total.
-/

namespace KineticText

/-! ## Seconds -/

theorem Tag.times_bounds (t : Tag) :
    (0 < t.entrySpeed.seconds.value ∧ t.entrySpeed.seconds.value ≤ 10) ∧
      (0 < t.displayDuration.seconds.value ∧ t.displayDuration.seconds.value ≤ 30) ∧
        (0 < t.exitSpeed.seconds.value ∧ t.exitSpeed.seconds.value ≤ 10) := by
  obtain ⟨hentry, hentryLe, -⟩ := inRange_iff.1 (Quantity.inRange_seconds t.entrySpeed_inRange)
  obtain ⟨hdisplay, hdisplayLe, -⟩ :=
    inRange_iff.1 (Quantity.inRange_seconds t.displayDuration_inRange)
  obtain ⟨hexit, hexitLe, -⟩ := inRange_iff.1 (Quantity.inRange_seconds t.exitSpeed_inRange)
  norm_num [NumberField.limit] at hentryLe hdisplayLe hexitLe
  exact ⟨⟨hentry, hentryLe⟩, ⟨hdisplay, hdisplayLe⟩, ⟨hexit, hexitLe⟩⟩

theorem Tag.seconds_bounds (t : Tag) : 0 < t.seconds.value ∧ t.seconds.value ≤ 51 := by
  obtain ⟨⟨hentry, hentryLe⟩, ⟨hdisplay, hdisplayLe⟩, hexit, hexitLe⟩ := t.times_bounds
  obtain ⟨hfirst, hfirstLe⟩ := Decimal.add_bounds hentry hdisplay hentryLe hdisplayLe
  obtain ⟨hsum, hsumLe⟩ := Decimal.add_bounds hfirst hexit hfirstLe hexitLe
  exact ⟨hsum, hsumLe.trans (by norm_num)⟩

namespace Schedule

theorem secondsOf_bounds (s : Segment) : 0 < (secondsOf s).value ∧ (secondsOf s).value ≤ 51 := by
  unfold secondsOf
  cases s.tag with
  | some t => exact t.seconds_bounds
  | none => norm_num [untaggedSeconds, Decimal.value]

/-! ## Roundings -/

/-- How far rounding may set an end apart from a total: four parts in `2 ^ 53`
of the total, or of the fifty seconds that a segment may last. -/
def slack (total : ℚ) : ℚ := max total 50 / 2 ^ 51

/-- A number with an error of one part in `2 ^ 53`, and of a bit. -/
def CloseTo (bit q x : ℚ) : Prop := |x - q| ≤ |q| / 2 ^ 53 + bit

theorem CloseTo.within {bit p q x : ℚ} (h : CloseTo bit q x) (hp : |q| ≤ p) :
    q - (p / 2 ^ 53 + bit) ≤ x ∧ x ≤ q + (p / 2 ^ 53 + bit) := by
  unfold CloseTo at h
  rw [abs_le] at h
  constructor <;> linarith

section Rounding

variable {bit σ δ x y z e w : ℚ} (hbit : bit ≤ 1 / 2 ^ 60) (hδ : 0 < δ) (hδLe : δ ≤ 51)
  (hx : CloseTo bit σ x) (hy : CloseTo bit δ y) (hz : CloseTo bit (x + y) z)
include hbit hδ hδLe hx hy hz

/-- Start and duration are rounded and added, and the sum is rounded: that is
the sum which is rounded once but for the slack. -/
theorem abs_sub_le_slack (hsum : 0 < σ + δ) (he : |e - (σ + δ)| ≤ |σ + δ| / 10 ^ 27)
    (hw : CloseTo bit e w) : |z - w| ≤ slack w := by
  rw [abs_of_pos hsum, abs_le] at he
  obtain ⟨he, he'⟩ := he
  have hpos : 0 < e := by linarith
  obtain ⟨hx, hx'⟩ := hx.within le_rfl
  obtain ⟨hy, hy'⟩ := hy.within (abs_of_pos hδ).le
  obtain ⟨hw, hw'⟩ := hw.within (abs_of_pos hpos).le
  have hxy : |x + y| ≤ σ + δ + (|σ| + δ) / 2 ^ 53 + 2 * bit := by
    rw [abs_le]
    constructor <;> linarith
  obtain ⟨hz, hz'⟩ := hz.within hxy
  have hfifty := le_max_right w 50
  have hwhole := le_max_left w 50
  rw [slack, abs_le]
  -- A start in front of zero is less than the duration in front of it.
  rcases abs_cases σ with ⟨hσ, hsign⟩ | ⟨hσ, hsign⟩
  · constructor <;> linarith
  · constructor <;> linarith

/-- An end that is not positive is not behind the slack of zero. -/
theorem le_slack_zero (hsum : σ + δ ≤ 0) : z ≤ slack 0 := by
  obtain ⟨hx, hx'⟩ := hx.within (abs_of_nonpos (by linarith)).le
  obtain ⟨hy, hy'⟩ := hy.within (abs_of_pos hδ).le
  have hxy : |x + y| ≤ -(σ + δ) + (δ - σ) / 2 ^ 53 + 2 * bit := by
    rw [abs_le]
    constructor <;> linarith
  obtain ⟨-, hz'⟩ := hz.within hxy
  have hslack : slack 0 = 50 / 2 ^ 51 := by norm_num [slack]
  linarith

end Rounding

/-! ## Ends -/

theorem larger_eq_or (a b : Decimal) :
    (a.larger b = a ∨ a.larger b = b) ∧ a.value ≤ (a.larger b).value ∧
      b.value ≤ (a.larger b).value := by
  unfold Decimal.larger
  split_ifs with h
  · rw [Decimal.lt_iff_value] at h
    exact ⟨.inr rfl, h.le, le_rfl⟩
  · rw [Decimal.lt_iff_value, not_lt] at h
    exact ⟨.inl rfl, le_rfl, h⟩

/-- The largest of decimals is one of them, and none is larger. -/
theorem foldl_larger (ds : List Decimal) (d : Decimal) :
    ds.foldl Decimal.larger d ∈ d :: ds ∧
      ∀ x ∈ d :: ds, x.value ≤ (ds.foldl Decimal.larger d).value := by
  induction ds generalizing d with
  | nil => simp
  | cons a ds ih =>
    obtain ⟨hmem, hle⟩ := ih (d.larger a)
    obtain ⟨hor, hd, ha⟩ := larger_eq_or d a
    have hlarger := hle _ (List.mem_cons_self ..)
    rw [List.foldl_cons]
    constructor
    · rcases List.mem_cons.1 hmem with h | h
      · rw [h]
        rcases hor with h | h <;> simp [h]
      · simp [h]
    · intro x hx
      simp only [List.mem_cons] at hx
      rcases hx with rfl | rfl | hx
      · exact hd.trans hlarger
      · exact ha.trans hlarger
      · exact hle x (List.mem_cons_of_mem _ hx)

variable {γ cursor total e last : Decimal} {s : Segment} {segments : List Segment}

/-- Where there are segments, the total is the largest of their ends, rounded
once. -/
theorem exists_last (γ : Decimal) (hne : segments ≠ []) :
    ∃ last ∈ ends γ (.ofInt 0) segments, 0 < last.value ∧
      (∀ e ∈ ends γ (.ofInt 0) segments, e.value ≤ last.value) ∧
      (assign γ segments).2 = last.toBinary64 := by
  have htotal : (assign γ segments).2 =
      ((ends γ (.ofInt 0) segments).foldl Decimal.larger (.ofInt 0)).toBinary64 :=
    congrArg Decimal.toBinary64 (snd_assignFrom ..)
  obtain ⟨s, rest, rfl⟩ := List.exists_cons_of_ne_nil hne
  obtain ⟨hmem, hle⟩ := foldl_larger (ends γ (.ofInt 0) (s :: rest)) (.ofInt 0)
  have hfirst : 0 < (Decimal.ofInt 0 + secondsOf s).value := by
    rw [Decimal.add_pos_iff, Decimal.value_ofInt]
    simpa using (secondsOf_bounds s).1
  have hpos := hfirst.trans_le (hle _ (by simp [ends_cons]))
  refine ⟨_, ?_, hpos, fun e he => hle e (List.mem_cons_of_mem _ he), htotal⟩
  rcases List.mem_cons.1 hmem with h | h
  · rw [h, Decimal.value_ofInt] at hpos
    simp at hpos
  · exact h

/-- The segment has the times of one that ends at a decimal: its start and its
seconds, each of them rounded. -/
def EndsAt (e : Decimal) (s : Segment) : Prop :=
  ∃ cursor : Decimal, s.start = .real cursor.toBinary64 ∧
    s.duration = .real (secondsOf s).toBinary64 ∧ e = cursor + secondsOf s

theorem forall₂_endsAt (γ cursor total : Decimal) (segments : List Segment) :
    List.Forall₂ EndsAt (ends γ cursor segments) (assignFrom γ cursor total segments).1 := by
  induction segments generalizing cursor total with
  | nil => exact .nil
  | cons s segments ih =>
    rw [ends_cons, assignFrom_cons]
    exact .cons ⟨cursor, rfl, rfl, rfl⟩ (ih ..)

theorem EndsAt.placed (h : EndsAt e s) (position : Position) : EndsAt e { s with position } := h

theorem EndsAt.finish_eq (h : EndsAt e s) :
    ∃ cursor : Decimal, s.start = .real cursor.toBinary64 ∧
      s.finish = .real (cursor.toBinary64 + (secondsOf s).toBinary64) ∧
        e = cursor + secondsOf s := by
  obtain ⟨cursor, hstart, hduration, he⟩ := h
  refine ⟨cursor, hstart, ?_, he⟩
  rw [Segment.finish, hstart, hduration, Quantity.real_add_real]

/-- Half the least double, by which rounding may be off whatever is rounded. -/
theorem magnitudeAt_one_le : magnitudeAt 1 / 2 ≤ 1 / 2 ^ 60 := by
  have hle : magnitudeAt 1 ≤ 1 / 2 ^ 60 := by
    rw [magnitudeAt_one]
    exact one_div_le_one_div_of_le (by positivity) (pow_le_pow_right₀ (by norm_num) (by norm_num))
  have hnonneg := magnitudeAt_nonneg 1
  linarith

section Finite

variable (h : EndsAt e s) (hfinite : s.finish.toBinary64.isFinite = true)
include h hfinite

/-- A positive end is rounded in one step or in three. -/
theorem EndsAt.abs_sub_le (hpos : 0 < e.value) (he : e.toBinary64.isFinite = true) :
    |s.finish.toBinary64.value - e.toBinary64.value| ≤ slack e.toBinary64.value := by
  obtain ⟨cursor, -, hfinish, rfl⟩ := h.finish_eq
  rw [hfinish] at hfinite ⊢
  obtain ⟨hstart, hduration⟩ := Binary64.isFinite_of_add hfinite
  obtain ⟨hseconds, hlimit⟩ := secondsOf_bounds s
  exact abs_sub_le_slack magnitudeAt_one_le hseconds hlimit
    (cursor.isRounded_toBinary64.error hstart) ((secondsOf s).isRounded_toBinary64.error hduration)
    ((Binary64.isRounded_add hstart hduration).error hfinite) (Decimal.add_pos_iff.1 hpos)
    (Decimal.add_error ..) ((cursor + secondsOf s).isRounded_toBinary64.error he)

theorem EndsAt.finish_le_slack (hnonpos : ¬0 < e.value) : s.finish.toBinary64.value ≤ slack 0 := by
  obtain ⟨cursor, -, hfinish, rfl⟩ := h.finish_eq
  rw [hfinish] at hfinite ⊢
  obtain ⟨hstart, hduration⟩ := Binary64.isFinite_of_add hfinite
  obtain ⟨hseconds, hlimit⟩ := secondsOf_bounds s
  rw [Decimal.add_pos_iff, not_lt] at hnonpos
  exact le_slack_zero magnitudeAt_one_le hseconds hlimit
    (cursor.isRounded_toBinary64.error hstart) ((secondsOf s).isRounded_toBinary64.error hduration)
    ((Binary64.isRounded_add hstart hduration).error hfinite) hnonpos

theorem EndsAt.start_le_finish : s.start.toBinary64.value ≤ s.finish.toBinary64.value := by
  obtain ⟨cursor, hstart, hfinish, -⟩ := h.finish_eq
  rw [hfinish] at hfinite
  rw [hstart, hfinish]
  obtain ⟨hcursor, hduration⟩ := Binary64.isFinite_of_add hfinite
  have hzero := (Decimal.isRounded_toBinary64 (.ofInt 0)).key_mono
    (secondsOf s).isRounded_toBinary64 (by simpa using (secondsOf_bounds s).1.le)
  refine (Binary64.value_le_value_iff hcursor hfinite).2 (Binary64.key_le_key_add hcursor hduration ?_)
  exact (Binary64.value_nonneg_iff hduration).2 hzero

end Finite

theorem slack_mono {p q : ℚ} (h : p ≤ q) : slack p ≤ slack q := by
  unfold slack
  gcongr

/-- No end is behind the last one by more than the slack. -/
theorem EndsAt.finish_le (h : EndsAt e s) (hfinite : s.finish.toBinary64.isFinite = true)
    (hlast : last.toBinary64.isFinite = true) (hpos : 0 < last.value)
    (hle : e.value ≤ last.value) :
    s.finish.toBinary64.value ≤ last.toBinary64.value + slack last.toBinary64.value := by
  have hzero := (Binary64.isRounded_zero false).key_mono last.isRounded_toBinary64 hpos.le
  rcases lt_or_ge 0 e.value with he | he
  · have hkey := e.isRounded_toBinary64.key_mono last.isRounded_toBinary64 hle
    have hfirst := (Binary64.isRounded_zero false).key_mono e.isRounded_toBinary64 he.le
    have heFinite : e.toBinary64.isFinite = true := by
      have hbound := (Binary64.isFinite_iff.1 hlast).2
      have hzeroKey : (Binary64.zero false).key = 0 := rfl
      exact Binary64.isFinite_iff.2 ⟨e.isRounded_toBinary64.1, by omega⟩
    have hvalue := (Binary64.value_le_value_iff heFinite hlast).2 hkey
    have hclose := (abs_le.1 (h.abs_sub_le hfinite he heFinite)).2
    have hslack := slack_mono hvalue
    linarith
  · have hnonneg := (Binary64.value_nonneg_iff hlast).2 hzero
    have hclose := h.finish_le_slack hfinite he.not_gt
    have hslack := slack_mono hnonneg
    linarith

/-- The last end is not in front of the total by more than the slack. -/
theorem EndsAt.total_le (h : EndsAt last s) (hfinite : s.finish.toBinary64.isFinite = true)
    (hlast : last.toBinary64.isFinite = true) (hpos : 0 < last.value) :
    last.toBinary64.value ≤ s.finish.toBinary64.value + slack last.toBinary64.value := by
  have hclose := (abs_le.1 (h.abs_sub_le hfinite hpos hlast)).1
  linarith

end Schedule

/-! ## The timeline behind the total -/

/-- The time is after a number of seconds; an infinite one is after all. -/
def Binary64.IsAfter (q : ℚ) (time : Binary64) : Prop :=
  time = infinity false ∨ time.isFinite = true ∧ q < time.value

/-- The quantity is a finite double up to a number of seconds. -/
def Quantity.IsUpTo (q : ℚ) (p : Quantity) : Prop :=
  ∃ x, p = real x ∧ x.isFinite = true ∧ x.value ≤ q

theorem Quantity.IsUpTo.toBinary64_le {q : ℚ} {p : Quantity} (h : p.IsUpTo q) :
    p.toBinary64.value ≤ q := by
  obtain ⟨x, rfl, -, hle⟩ := h
  exact hle

theorem Binary64.lt_of_isAfter {q : ℚ} {x time : Binary64} (h : time.IsAfter q)
    (hx : x.isFinite = true) (hle : x.value ≤ q) : x < time := by
  rcases h with rfl | ⟨htime, hlt⟩
  · exact lt_infinity hx
  · exact lt_of_value_lt hx htime (hle.trans_lt hlt)

theorem Quantity.IsUpTo.lt {q : ℚ} {p : Quantity} {time : Binary64} (h : p.IsUpTo q)
    (htime : time.IsAfter q) : p < real time ∧ ¬real time ≤ p := by
  obtain ⟨x, rfl, hx, hle⟩ := h
  have hlt := Binary64.lt_of_isAfter htime hx hle
  rw [real_lt_real, real_le_real]
  refine ⟨hlt, ?_⟩
  intro hnot
  have := Binary64.key_lt_of_lt hlt
  have := (Binary64.le_iff_key.1 hnot).2.2
  omega

namespace Timeline

variable {q : ℚ} {segments : List Segment} {s : Segment} {time event : Quantity} {t : Binary64}

/-- Start and end of the segment are up to a number of seconds. -/
structure EndsBy (q : ℚ) (s : Segment) : Prop where
  start : s.start.IsUpTo q
  finish : s.finish.IsUpTo q

/-- The next event is after the time, and it is the start or the end of a
segment. -/
theorem nextEvent?_isUpTo (hends : ∀ s ∈ segments, EndsBy q s)
    (h : nextEvent? segments time = some event) : time < event ∧ event.IsUpTo q := by
  have hnext := isNext_of_nextEvent? h
  obtain ⟨s, hs, rfl | rfl⟩ := hnext.isEvent
  · exact ⟨hnext.after, (hends s hs).start⟩
  · exact ⟨hnext.after, (hends s hs).finish⟩

theorem nextEvent?_eq_none (hends : ∀ s ∈ segments, EndsBy q s) (ht : t.IsAfter q) :
    nextEvent? segments (.real t) = none := by
  by_contra h
  obtain ⟨event, hevent⟩ := Option.ne_none_iff_exists'.1 h
  obtain ⟨hlt, x, rfl, hx, hle⟩ := nextEvent?_isUpTo hends hevent
  have := Binary64.key_lt_of_lt (Binary64.lt_of_isAfter ht hx hle)
  have := Binary64.key_lt_of_lt (Quantity.real_lt_real.1 hlt)
  omega

theorem EndsBy.phase_eq (h : EndsBy q s) (ht : t.IsAfter q) : phase (.real t) s = .completed := by
  obtain ⟨hlt, hnot⟩ := h.finish.lt ht
  unfold phase
  rw [if_neg (by simp [hnot]), if_pos hlt]

theorem inPhase_completed (hends : ∀ s ∈ segments, EndsBy q s) (ht : t.IsAfter q) :
    inPhase .completed segments (.real t) = segments := by
  unfold inPhase
  rw [List.filter_eq_self]
  intro s hs
  rw [(hends s hs).phase_eq ht]
  rfl

end Timeline

/-- No segment starts or ends behind the last end by more than the slack. -/
theorem Schedule.EndsAt.endsBy {e last : Decimal} {s : Segment} (h : EndsAt e s)
    (hfinite : s.finish.toBinary64.isFinite = true) (hlast : last.toBinary64.isFinite = true)
    (hpos : 0 < last.value) (hle : e.value ≤ last.value) :
    Timeline.EndsBy (last.toBinary64.value + slack last.toBinary64.value) s := by
  have hfinish := h.finish_le hfinite hlast hpos hle
  have hstart := (h.start_le_finish hfinite).trans hfinish
  obtain ⟨cursor, hstartEq, hfinishEq, -⟩ := h.finish_eq
  rw [hstartEq] at hstart
  rw [hfinishEq] at hfinite hfinish
  constructor
  · exact ⟨_, hstartEq, (Binary64.isFinite_of_add hfinite).1, hstart⟩
  · exact ⟨_, hfinishEq, hfinite, hfinish⟩

end KineticText
