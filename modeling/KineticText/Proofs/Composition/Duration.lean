import KineticText.Canvas.PowerSeries
import KineticText.Proofs.Composition.Answer
import KineticText.Proofs.Schedule.Total

/-!
# The duration of a composition

The total of a composition is that of its schedule: the largest decimal end,
rounded once.  A layout changes nothing about times, so the segments of the
composition end there, but for the slack by which the roundings of a double end
differ (`compose_covers`).  An end may be behind the total within the slack, and
then the timeline is not over at the total (`compose_behind_total`).
-/

namespace KineticText

/-- Segments that are placed keep their ends. -/
theorem Schedule.EndsAt.forall₂_placed {ds : List Decimal} {timed placed : List Segment}
    (h : List.Forall₂ EndsAt ds timed)
    (hplaced : List.Forall₂ (fun s t => t = { s with position := t.position }) timed placed) :
    List.Forall₂ EndsAt ds placed := by
  induction h generalizing placed with
  | nil =>
    cases hplaced
    exact .nil
  | cons hs _ ih =>
    cases hplaced with
    | cons ht hplaced =>
      apply List.Forall₂.cons
      · rw [ht]
        exact hs.placed _
      · exact ih hplaced

namespace Composition

open Schedule (slack ends EndsAt)

variable {text gap : Datum} {c : Canvas} {g g' : Generator} {r : Composition}

/-- The segments of a composition have the ends of its schedule. -/
theorem exists_ends [Trigonometry] (h : compose text gap c g = .ok (r, g')) :
    ∃ γ s, Schedule.gapOf gap = .ok γ ∧ text = .text (String.ofList s) ∧
      r.totalDuration = (Schedule.assign γ (Script.read s).segments).2 ∧
      List.Forall₂ EndsAt (ends γ (.ofInt 0) (Script.read s).segments) r.segments := by
  obtain ⟨γ, s, l, hgap, htext, hlayout, rfl, -⟩ := compose_eq_ok_iff.1 h
  refine ⟨γ, s, hgap, htext, rfl, ?_⟩
  exact EndsAt.forall₂_placed (Schedule.forall₂_endsAt ..) (Canvas.forall₂_layout hlayout)

/-- The total of a composition is the largest decimal end of its segments,
rounded once, and zero without segments.  The double ends are not behind it,
and the last of them is not in front of it, but for the slack; and behind the
slack the timeline is over. -/
theorem compose_covers [Trigonometry] (h : compose text gap c g = .ok (r, g'))
    (htotal : r.totalDuration.isFinite = true)
    (hends : ∀ s ∈ r.segments, s.finish.toBinary64.isFinite = true) :
    (r.segments = [] → r.totalDuration = 0) ∧
      (r.segments ≠ [] → ∃ γ s, Schedule.gapOf gap = .ok γ ∧ text = .text (String.ofList s) ∧
        ∃ last ∈ ends γ (.ofInt 0) (Script.read s).segments,
          (∀ e ∈ ends γ (.ofInt 0) (Script.read s).segments, e.value ≤ last.value) ∧
            r.totalDuration = last.toBinary64) ∧
      (∀ s ∈ r.segments, s.finish.toBinary64.value ≤
        r.totalDuration.value + slack r.totalDuration.value) ∧
      (r.segments ≠ [] → ∃ s ∈ r.segments,
        r.totalDuration.value ≤ s.finish.toBinary64.value + slack r.totalDuration.value) ∧
      (∀ time event, Timeline.nextEvent? r.segments time = some event →
        event.toBinary64.value ≤ r.totalDuration.value + slack r.totalDuration.value) ∧
      ∀ time : Binary64, time.IsAfter (r.totalDuration.value + slack r.totalDuration.value) →
        Timeline.nextEvent? r.segments (.real time) = none ∧
          Timeline.inPhase .completed r.segments (.real time) = r.segments := by
  obtain ⟨γ, s, hgap, htext, hr, hall⟩ := exists_ends h
  by_cases hempty : (Script.read s).segments = []
  · rw [hempty] at hr hall
    have hnone : r.segments = [] := List.forall₂_nil_left_iff.1 hall
    have hzero : (Decimal.ofInt 0).toBinary64 = 0 := by decide +kernel
    have hnothing : r.totalDuration = 0 := hr.trans hzero
    simp [hnone, hnothing, Timeline.nextEvent?, Timeline.eventsAfter, Timeline.inPhase]
  obtain ⟨last, hmem, hpos, hle, hlast⟩ := Schedule.exists_last γ hempty
  rw [hr, hlast] at htotal
  have hendsBy : ∀ t ∈ r.segments,
      Timeline.EndsBy (last.toBinary64.value + slack last.toBinary64.value) t := by
    intro t ht
    obtain ⟨e, he, hat⟩ := exists_of_mem_forall₂ hall t ht
    exact hat.endsBy (hends t ht) htotal hpos (hle e he)
  have hclose : ∃ t ∈ r.segments,
      last.toBinary64.value ≤ t.finish.toBinary64.value + slack last.toBinary64.value := by
    obtain ⟨t, ht, hat⟩ := exists_of_mem_forall₂ hall.flip last hmem
    exact ⟨t, ht, EndsAt.total_le hat (hends t ht) htotal hpos⟩
  have hne : r.segments ≠ [] := by
    intro hnone
    obtain ⟨t, ht, -⟩ := hclose
    rw [hnone] at ht
    cases ht
  rw [hr, hlast]
  refine ⟨fun hnone => absurd hnone hne, fun _ => ⟨γ, s, hgap, htext, last, hmem, hle, rfl⟩, ?_,
    fun _ => hclose, ?_, ?_⟩
  · intro t ht
    exact (hendsBy t ht).finish.toBinary64_le
  · intro time event hevent
    exact (Timeline.nextEvent?_isUpTo hendsBy hevent).2.toBinary64_le
  · intro time htime
    exact ⟨Timeline.nextEvent?_eq_none hendsBy htime, Timeline.inPhase_completed hendsBy htime⟩

/-- Two texts of which the second one ends at `1.4` in decimals, but at
`1.4000000000000001` as the sum of two doubles. -/
def twoTexts : Datum := .text "a <0.1L0.1R0.1> b <0.3L0.5R0.3>"

theorem compose_twoTexts :
    ∃ r g', compose twoTexts (.int 0) Canvas.smallCanvas ⟨#[], 0⟩ = .ok (r, g') ∧
      r.totalDuration = 1.4 ∧
      r.segments.map Segment.finish = [.real 0.3, .real 1.4000000000000001] ∧
      Timeline.nextEvent? r.segments (.real 1.4) = some (.real 1.4000000000000001) ∧
      (Timeline.inPhase .completed r.segments (.real 1.4000000000000001)).length = 1 := by
  have hanswer : (compose twoTexts (.int 0) Canvas.smallCanvas ⟨#[], 0⟩).map (fun answer =>
        (answer.1.totalDuration, answer.1.segments.map Segment.finish,
          Timeline.nextEvent? answer.1.segments (.real 1.4),
          (Timeline.inPhase .completed answer.1.segments (.real 1.4000000000000001)).length)) =
      .ok (1.4, [.real 0.3, .real 1.4000000000000001], some (.real 1.4000000000000001), 1) := by
    decide +kernel
  obtain ⟨⟨r, g'⟩, hcompose, hr⟩ := map_eq_ok_iff.1 hanswer
  simp only [Prod.mk.injEq] at hr
  exact ⟨r, g', hcompose, hr⟩

/-- The slack is all that sets these two ends apart from the total. -/
theorem compose_covers_twoTexts :
    ∃ r g', compose twoTexts (.int 0) Canvas.smallCanvas ⟨#[], 0⟩ = .ok (r, g') ∧
      r.totalDuration.isFinite = true ∧
      (∀ s ∈ r.segments, s.finish.toBinary64.isFinite = true) ∧ r.segments ≠ [] ∧
      (∀ s ∈ r.segments, s.finish.toBinary64.value ≤
        r.totalDuration.value + slack r.totalDuration.value) ∧
      (∃ s ∈ r.segments,
        r.totalDuration.value ≤ s.finish.toBinary64.value + slack r.totalDuration.value) ∧
      ((.infinity false : Binary64).IsAfter (r.totalDuration.value + slack r.totalDuration.value) ∧
        Timeline.inPhase .completed r.segments (.real (.infinity false)) = r.segments) := by
  obtain ⟨r, g', h, htotal, hfinish, -, -⟩ := compose_twoTexts
  have hfinite : r.totalDuration.isFinite = true := by
    rw [htotal]
    decide +kernel
  have hends : ∀ s ∈ r.segments, s.finish.toBinary64.isFinite = true := by
    intro s hs
    have hmem := List.mem_map_of_mem (f := Segment.finish) hs
    rw [hfinish] at hmem
    generalize s.finish = q at hmem
    revert q
    decide +kernel
  have hne : r.segments ≠ [] := by
    rintro hnil
    rw [hnil] at hfinish
    cases hfinish
  obtain ⟨-, -, hle, hclose, -, hover⟩ := compose_covers h hfinite hends
  exact ⟨r, g', h, hfinite, hends, hne, hle, hclose hne, .inl rfl, (hover _ (.inl rfl)).2⟩

/-- No end is the total: one is in front of it and one behind it, which is the
next event at the total, and then not all segments are completed. -/
theorem compose_behind_total :
    ∃ r g', compose twoTexts (.int 0) Canvas.smallCanvas ⟨#[], 0⟩ = .ok (r, g') ∧
      (∃ s ∈ r.segments, Quantity.real r.totalDuration < s.finish) ∧
      (∀ s ∈ r.segments, s.finish ≠ .real r.totalDuration) ∧
      Timeline.nextEvent? r.segments (.real r.totalDuration) ≠ none ∧
      ∃ later, r.totalDuration < later ∧
        Timeline.inPhase .completed r.segments (.real later) ≠ r.segments := by
  obtain ⟨r, g', h, htotal, hfinish, hnext, hover⟩ := compose_twoTexts
  have hlength : r.segments.length = 2 := by
    rw [← List.length_map, hfinish]
    rfl
  refine ⟨r, g', h, ?_⟩
  rw [htotal]
  refine ⟨?_, ?_, ?_, 1.4000000000000001, by decide +kernel, ?_⟩
  · have hmem : Quantity.real 1.4000000000000001 ∈ r.segments.map Segment.finish := by
      simp [hfinish]
    obtain ⟨s, hs, heq⟩ := List.mem_map.1 hmem
    refine ⟨s, hs, ?_⟩
    rw [heq]
    decide +kernel
  · intro s hs heq
    have hmem := List.mem_map_of_mem (f := Segment.finish) hs
    rw [hfinish, heq] at hmem
    revert hmem
    decide +kernel
  · rw [hnext]
    simp
  · intro hall
    rw [hall] at hover
    omega

end Composition

end KineticText
