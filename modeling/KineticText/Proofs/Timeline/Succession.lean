import KineticText.Proofs.Number.Line
import KineticText.Timeline

/-!
# Segments one after another

Segments succeed each other if each of them is over before the next one starts.
At any time those that are completed then stand in front, those that are
upcoming behind, and at most one between them is active (`Succeed.inPhase_eq`).

There are two groups: the phases of a segment, and lists of segments.
-/

namespace KineticText

namespace Timeline

variable {s t : Segment} {segments : List Segment} {time : Quantity}

/-! ## Phases -/

theorem phase_eq_active_iff : phase time s = .active ↔ s.start ≤ time ∧ time ≤ s.finish := by
  rw [← decide_eq_true_iff (p := s.start ≤ time), ← decide_eq_true_iff (p := time ≤ s.finish),
    ← Bool.and_eq_true, phase]
  split_ifs with h <;> simp [h]

theorem phase_eq_completed_iff : phase time s = .completed ↔ s.finish < time := by
  have hnot (hle : time ≤ s.finish) : ¬s.finish < time := by
    rw [Quantity.le_iff_place] at hle
    rw [Quantity.lt_iff_place]
    rintro ⟨-, -, hlt⟩
    exact hle.2.2.not_gt hlt
  rw [phase]
  simp only [Bool.and_eq_true, decide_eq_true_eq]
  split_ifs with hactive hcompleted
  · simpa using hnot hactive.2
  · simpa using hcompleted
  · simpa using hcompleted

/-- Before its start a segment is upcoming. -/
theorem phase_eq_upcoming (ht : t.start ≤ t.finish) (h : time < t.start) :
    phase time t = .upcoming := by
  rw [Quantity.le_iff_place] at ht
  rw [Quantity.lt_iff_place] at h
  cases hphase : phase time t with
  | active =>
    rw [phase_eq_active_iff, Quantity.le_iff_place] at hphase
    exact absurd hphase.1.2.2 h.2.2.not_ge
  | completed =>
    rw [phase_eq_completed_iff, Quantity.lt_iff_place] at hphase
    exact absurd (hphase.2.2.trans h.2.2) ht.2.2.not_gt
  | upcoming => rfl

/-- As long as a segment is not over, one that starts behind its end is
upcoming. -/
theorem phase_eq_upcoming_of_ne (htime : time.isNaN = false) (hst : s.finish < t.start)
    (ht : t.start ≤ t.finish) (hs : phase time s ≠ .completed) : phase time t = .upcoming := by
  apply phase_eq_upcoming ht
  rw [Ne, phase_eq_completed_iff, Quantity.lt_iff_place] at hs
  rw [Quantity.lt_iff_place] at hst ⊢
  obtain ⟨hfinish, hstart, hlt⟩ := hst
  have hle : time.place ≤ s.finish.place := not_lt.1 fun h => hs ⟨hfinish, htime, h⟩
  exact ⟨htime, hstart, hle.trans_lt hlt⟩

/-! ## Lists of segments -/

/-- No segment ends in front of its start, and each is over before the next one
starts. -/
structure Succeed (segments : List Segment) : Prop where
  start_le_finish : ∀ s ∈ segments, s.start ≤ s.finish
  isChain : segments.IsChain fun s t => s.finish < t.start

theorem Succeed.tail (h : Succeed (s :: segments)) : Succeed segments where
  start_le_finish t ht := h.start_le_finish t (List.mem_cons_of_mem _ ht)
  isChain := h.isChain.tail

/-- A segment is over before any later one starts. -/
theorem Succeed.finish_lt (h : Succeed (s :: segments)) : ∀ t ∈ segments, s.finish < t.start := by
  induction segments generalizing s with
  | nil => simp
  | cons t rest ih =>
    have hst : s.finish < t.start := (List.isChain_cons_cons.1 h.isChain).1
    intro u hu
    rcases List.mem_cons.1 hu with rfl | hu
    · exact hst
    · have hle := h.start_le_finish t (by simp)
      have hlt := ih h.tail u hu
      rw [Quantity.lt_iff_place] at hst hlt ⊢
      rw [Quantity.le_iff_place] at hle
      exact ⟨hst.1, hlt.2.1, (hst.2.2.trans_le hle.2.2).trans hlt.2.2⟩

theorem inPhase_cons (p : Phase) (s : Segment) (segments : List Segment) (time : Quantity) :
    inPhase p (s :: segments) time =
      if phase time s = p then s :: inPhase p segments time else inPhase p segments time := by
  rw [inPhase, List.filter_cons]
  simp only [decide_eq_true_eq]
  rfl

/-- Segments that are all in one phase. -/
theorem inPhase_of_forall {p q : Phase} (h : ∀ s ∈ segments, phase time s = p) :
    inPhase q segments time = if p = q then segments else [] := by
  rw [inPhase]
  split_ifs with hpq
  · exact List.filter_eq_self.2 fun s hs => by simp [h s hs, hpq]
  · exact List.filter_eq_nil_iff.2 fun s hs => by simp [h s hs, hpq]

/-- Of segments that succeed each other the completed ones stand in front and
the upcoming ones behind; at most one is active. -/
theorem Succeed.inPhase_eq (h : Succeed segments) (htime : time.isNaN = false) :
    inPhase .completed segments time ++ inPhase .active segments time ++
        inPhase .upcoming segments time = segments ∧
      (inPhase .active segments time).length ≤ 1 := by
  induction segments with
  | nil => simp [inPhase]
  | cons s rest ih =>
    obtain ⟨hsplit, hlength⟩ := ih h.tail
    by_cases hs : phase time s = .completed
    · simp only [inPhase_cons, hs, if_true, reduceCtorEq, if_false, List.cons_append, hsplit]
      exact ⟨trivial, hlength⟩
    · -- All behind a segment that is not over are upcoming.
      have hrest : ∀ t ∈ rest, phase time t = .upcoming := fun t ht =>
        phase_eq_upcoming_of_ne htime (h.finish_lt t ht) (h.start_le_finish t (by simp [ht])) hs
      simp only [inPhase_cons, inPhase_of_forall hrest, reduceCtorEq, if_false, if_true]
      cases hphase : phase time s with
      | active => simp
      | completed => exact absurd hphase hs
      | upcoming => simp

end Timeline

end KineticText
