import KineticText.Proofs.Number.Line
import KineticText.Proofs.Number.Quotient
import KineticText.Timeline

/-!
# Progress

The progress of a segment is the time since its start, divided by its duration.
It is never negative, and it does not go back as long as the segment lasts
(`progress_bounds`).

The end of a segment is rounded, and so is the time since its start.  Where the
end is rounded up there are times between the exact end and the rounded one
(`Overrun`).  At these the segment is still active, but its progress is one or
more, and behind the rounded end it is one again (`progress_overrun`).  At all
other times progress is at most one, and no later time has less of it.

There are two groups: segments with finite times, and their progress.
-/

namespace KineticText

namespace Timeline

/-! ## Finite times -/

/-- Start and duration are finite doubles, and the duration is not negative. -/
structure HasFiniteTimes (s : Segment) : Prop where
  start : ∃ x, s.start = .real x ∧ x.isFinite = true
  duration : ∃ x, s.duration = .real x ∧ x.isFinite = true ∧ 0 ≤ x

/-- The time is behind the exact end of a segment, but not behind its end as a
rounded sum. -/
def Overrun (s : Segment) (time : Quantity) : Prop :=
  s.start.value + s.duration.value < time.value ∧ time ≤ s.finish

instance (s : Segment) (time : Quantity) : Decidable (Overrun s time) :=
  inferInstanceAs (Decidable (_ ∧ _))

/-! ## Progress -/

section Segment

variable {s : Segment} {start duration t u : Binary64} (hstart : s.start = .real start)
  (hduration : s.duration = .real duration)
include hstart hduration

theorem finish_eq : s.finish = .real (start + duration) := by
  rw [Segment.finish, hstart, hduration, Quantity.real_add_real]

theorem overrun_iff :
    Overrun s (.real t) ↔ start.value + duration.value < t.value ∧ t ≤ start + duration := by
  rw [Overrun, finish_eq hstart hduration, hstart, hduration, Quantity.real_le_real]
  exact Iff.rfl

variable (hs : start.isFinite = true) (hd : duration.isFinite = true) (ht : t.isFinite = true)
include hs hd ht

/-- Progress is nothing before the start, one behind the rounded end, and the
time passed as a part of the duration between them. -/
theorem progress_cases :
    (t < start ∧ progress s (.real t) = 0) ∨
      (start ≤ t ∧ (start + duration < t ∨ duration ≤ 0) ∧ progress s (.real t) = 1) ∨
      (start ≤ t ∧ t ≤ start + duration ∧ ¬duration ≤ 0 ∧
        progress s (.real t) = (t - start) / duration) := by
  have hnan := Binary64.isNaN_of_isFinite ht
  rw [progress, hstart, hduration, finish_eq hstart hduration]
  simp only [Quantity.real_lt_real, Quantity.real_le_zero_iff, Bool.or_eq_true, decide_eq_true_eq]
  by_cases hbefore : t < start
  · exact .inl ⟨hbefore, if_pos hbefore⟩
  · have hlow := Binary64.le_of_not_lt hnan (Binary64.isNaN_of_isFinite hs) hbefore
    rw [if_neg hbefore]
    by_cases hbehind : start + duration < t ∨ duration ≤ 0
    · exact .inr (.inl ⟨hlow, hbehind, if_pos hbehind⟩)
    · obtain ⟨hnot, hlasts⟩ := not_or.1 hbehind
      have hhigh := Binary64.le_of_not_lt (Binary64.isRounded_add hs hd).1 hnan hnot
      refine .inr (.inr ⟨hlow, hhigh, hlasts, ?_⟩)
      rw [if_neg hbehind]
      rfl

theorem zero_le_progress : 0 ≤ progress s (.real t) := by
  rcases progress_cases hstart hduration hs hd ht with
    ⟨-, hp⟩ | ⟨-, -, hp⟩ | ⟨hlow, -, hlasts, hp⟩
  · rw [hp]
    exact Binary64.le_refl Binary64.isNaN_zero
  · rw [hp]
    exact Binary64.zero_le_one
  · rw [hp]
    apply Binary64.zero_le_div hd (Binary64.pos_of_not_le hlasts hd)
    have hpassed := Binary64.isRounded_sub ht hs
    have hvalue := (Binary64.value_le_value_iff hs ht).2 (Binary64.le_iff_key.1 hlow).2.2
    have hkey := (Binary64.isRounded_zero false).key_mono hpassed (by linarith)
    rw [Binary64.le_iff_key, Binary64.key_zero]
    exact ⟨Binary64.isNaN_zero, hpassed.1, hkey⟩

/-- Up to the exact end the rounded time since the start is at most the
duration. -/
theorem progress_le_one (h : ¬Overrun s (.real t)) : progress s (.real t) ≤ 1 := by
  rcases progress_cases hstart hduration hs hd ht with
    ⟨-, hp⟩ | ⟨-, -, hp⟩ | ⟨-, hhigh, hlasts, hp⟩
  · rw [hp]
    exact Binary64.zero_le_one
  · rw [hp]
    exact Binary64.le_refl Binary64.isNaN_one
  · rw [hp]
    apply Binary64.div_le_one hd (Binary64.pos_of_not_le hlasts hd)
    have hpassed := Binary64.isRounded_sub ht hs
    rw [overrun_iff hstart hduration, not_and', not_lt] at h
    have hvalue := h hhigh
    have hkey := hpassed.key_mono (Binary64.isRounded_value hd) (by linarith)
    exact Binary64.le_iff_key.2 ⟨hpassed.1, Binary64.isNaN_of_isFinite hd, hkey⟩

/-- Behind the exact end the rounded time since the start is at least the
duration. -/
theorem one_le_progress (hnonneg : 0 ≤ duration) (h : Overrun s (.real t)) :
    1 ≤ progress s (.real t) := by
  have hlong := (Binary64.nonneg_iff_of_isFinite hd).1 hnonneg
  obtain ⟨hbehind, -⟩ := (overrun_iff hstart hduration).1 h
  rcases progress_cases hstart hduration hs hd ht with
    ⟨hbefore, -⟩ | ⟨-, -, hp⟩ | ⟨-, -, hlasts, hp⟩
  · have hvalue := (Binary64.value_lt_value_iff ht hs).2 (Binary64.key_lt_of_lt hbefore)
    linarith
  · rw [hp]
    exact Binary64.le_refl Binary64.isNaN_one
  · rw [hp]
    apply Binary64.one_le_div hd (Binary64.pos_of_not_le hlasts hd)
    have hpassed := Binary64.isRounded_sub ht hs
    have hkey := (Binary64.isRounded_value hd).key_mono hpassed (by linarith)
    exact Binary64.le_iff_key.2 ⟨Binary64.isNaN_of_isFinite hd, hpassed.1, hkey⟩

/-- Progress does not go back as long as the segment lasts, and from at most one
it does not go back at all. -/
theorem progress_mono (hu : u.isFinite = true) (htu : t ≤ u)
    (h : u ≤ start + duration ∨ progress s (.real t) ≤ 1) :
    progress s (.real t) ≤ progress s (.real u) := by
  have hnonneg := zero_le_progress hstart hduration hs hd hu
  rcases progress_cases hstart hduration hs hd ht with
    ⟨-, hp⟩ | ⟨hlow, hbehind, hp⟩ | ⟨hlow, -, hlasts, hp⟩
  · rw [hp]
    exact hnonneg
  · -- Behind the end the later time is behind it, too.
    rcases progress_cases hstart hduration hs hd hu with
      ⟨hbefore, -⟩ | ⟨-, -, hq⟩ | ⟨-, hhigh, hlasts, -⟩
    · exact absurd hbefore (Binary64.not_lt_of_le (Binary64.le_trans hlow htu))
    · rw [hp, hq]
      exact Binary64.le_refl Binary64.isNaN_one
    · rcases hbehind with hlt | hle
      · exact absurd hlt (Binary64.not_lt_of_le (Binary64.le_trans htu hhigh))
      · exact absurd hle hlasts
  · rcases progress_cases hstart hduration hs hd hu with
      ⟨hbefore, -⟩ | ⟨-, hbehind, hq⟩ | ⟨-, -, -, hq⟩
    · exact absurd hbefore (Binary64.not_lt_of_le (Binary64.le_trans hlow htu))
    · rcases h with hhigh | hle
      · rcases hbehind with hlt | hle
        · exact absurd hlt (Binary64.not_lt_of_le hhigh)
        · exact absurd hle hlasts
      · rw [hq]
        exact hle
    · rw [hp, hq]
      exact Binary64.div_le_div hd (Binary64.pos_of_not_le hlasts hd)
        (Binary64.sub_le_sub hs htu)

end Segment

/-- Progress is never negative.  But for times that overrun the end it is at most
one and never goes back; at these it is at least one, and it does not go back up
to the rounded end. -/
theorem progress_bounds {s : Segment} {t u : Binary64} (h : HasFiniteTimes s)
    (ht : t.isFinite = true) (hu : u.isFinite = true) (htu : t ≤ u) :
    0 ≤ progress s (.real t) ∧
      (¬Overrun s (.real t) →
        progress s (.real t) ≤ 1 ∧ progress s (.real t) ≤ progress s (.real u)) ∧
      (Overrun s (.real t) →
        1 ≤ progress s (.real t) ∧
          (.real u ≤ s.finish → progress s (.real t) ≤ progress s (.real u))) := by
  obtain ⟨start, hstart, hs⟩ := h.start
  obtain ⟨duration, hduration, hd, hnonneg⟩ := h.duration
  refine ⟨zero_le_progress hstart hduration hs hd ht, ?_, ?_⟩
  · intro hinside
    have hone := progress_le_one hstart hduration hs hd ht hinside
    exact ⟨hone, progress_mono hstart hduration hs hd ht hu htu (.inr hone)⟩
  · intro hoverrun
    refine ⟨one_le_progress hstart hduration hs hd ht hnonneg hoverrun, ?_⟩
    intro hlasts
    rw [finish_eq hstart hduration, Quantity.real_le_real] at hlasts
    exact progress_mono hstart hduration hs hd ht hu htu (.inl hlasts)

/-- A segment of two seconds behind one of 2.4 seconds; its end is rounded up. -/
def secondText : Segment := { text := ['b'], index := 1, start := .real 2.4, duration := .real 2 }

theorem hasFiniteTimes_secondText : HasFiniteTimes secondText :=
  ⟨⟨2.4, rfl, by decide +kernel⟩, ⟨2, rfl, by decide +kernel, by decide +kernel⟩⟩

/-- One second into the segment, and up to its rounded end. -/
theorem progress_bounds_secondText :
    HasFiniteTimes secondText ∧ (3.4 : Binary64).isFinite = true ∧
      (4.4 : Binary64).isFinite = true ∧ (3.4 : Binary64) ≤ 4.4 ∧
      ¬Overrun secondText (.real 3.4) ∧ Overrun secondText (.real 4.4) ∧
      0 ≤ progress secondText (.real 3.4) ∧ progress secondText (.real 3.4) ≤ 1 ∧
      progress secondText (.real 3.4) ≤ progress secondText (.real 4.4) := by
  have htimes := hasFiniteTimes_secondText
  have ht : (3.4 : Binary64).isFinite = true := by decide +kernel
  have hu : (4.4 : Binary64).isFinite = true := by decide +kernel
  have htu : (3.4 : Binary64) ≤ 4.4 := by decide +kernel
  have hinside : ¬Overrun secondText (.real 3.4) := by decide +kernel
  have hoverrun : Overrun secondText (.real 4.4) := by decide +kernel
  obtain ⟨hnonneg, hbounds, -⟩ := progress_bounds htimes ht hu htu
  obtain ⟨hone, hmono⟩ := hbounds hinside
  exact ⟨htimes, ht, hu, htu, hinside, hoverrun, hnonneg, hone, hmono⟩

/-- At its rounded end the progress of the segment is more than one, and behind
it less than before. -/
theorem progress_overrun :
    HasFiniteTimes secondText ∧ (4.4 : Binary64).isFinite = true ∧
      (5 : Binary64).isFinite = true ∧ (4.4 : Binary64) ≤ 5 ∧
      ¬progress secondText (.real 4.4) ≤ 1 ∧
      ¬progress secondText (.real 4.4) ≤ progress secondText (.real 5) := by
  refine ⟨hasFiniteTimes_secondText, ?_⟩
  decide +kernel

end Timeline

end KineticText
