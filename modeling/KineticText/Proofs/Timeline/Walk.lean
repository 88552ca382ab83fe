import KineticText.Proofs.Timeline.Succession

/-!
# From event to event

The events of a timeline are the starts and ends of its segments.  A walk goes
from a time on from one next event to the next, until there is none
(`Walk`).  It ends, visits every later event once and in order, and between two
of its stops nothing on the timeline changes (`walk_visits`): the question for
the next event and the question for the phase of a segment agree.

Segments may overlap, last less than no time or without end, and their times
may be of different kinds; equal times are one event.

There are four groups: the next event, walks, phases, and what a walk visits.
-/

namespace KineticText

namespace Timeline

variable {segments : List Segment} {s : Segment} {time event other a b u v x : Quantity}
  {events : List Quantity}

/-! ## The next event -/

/-- The start or the end of a segment. -/
def IsEvent (segments : List Segment) (event : Quantity) : Prop :=
  ∃ s ∈ segments, event = s.start ∨ event = s.finish

/-- The event is after the time, and no event after the time is before it. -/
structure IsNext (segments : List Segment) (time event : Quantity) : Prop where
  isEvent : IsEvent segments event
  after : time < event
  least : ∀ other, IsEvent segments other → time < other → event ≤ other

theorem mem_eventsAfter_iff :
    event ∈ eventsAfter segments time ↔ IsEvent segments event ∧ time < event := by
  simp only [eventsAfter, List.mem_filter, List.mem_flatMap, List.mem_cons, List.not_mem_nil,
    or_false, decide_eq_true_eq, IsEvent]

theorem length_eventsAfter_le (segments : List Segment) (time : Quantity) :
    (eventsAfter segments time).length ≤ 2 * segments.length := by
  have htimes : (segments.flatMap fun s => [s.start, s.finish]).length = 2 * segments.length := by
    induction segments with
    | nil => rfl
    | cons s segments ih =>
      rw [List.flatMap_cons, List.length_append, ih, List.length_cons]
      simp only [List.length_cons, List.length_nil]
      omega
  rw [← htimes]
  exact List.length_filter_le ..

theorem foldl_smaller_mem (events : List Quantity) (first : Quantity) :
    events.foldl Quantity.smaller first ∈ first :: events := by
  induction events generalizing first with
  | nil => simp
  | cons event events ih =>
    have hmem := ih (first.smaller event)
    have hor : first.smaller event = first ∨ first.smaller event = event := by
      unfold Quantity.smaller
      split_ifs <;> simp
    rw [List.foldl_cons]
    rcases hor with h | h
    · rw [h] at hmem ⊢
      rcases List.mem_cons.1 hmem with h | h <;> simp [h]
    · rw [h] at hmem ⊢
      exact List.mem_cons_of_mem _ hmem

/-- The smaller of defined quantities again and again is not greater than any of
them. -/
theorem foldl_smaller_le (events : List Quantity) (first : Quantity)
    (hdefined : ∀ x ∈ first :: events, x.isNaN = false) :
    ∀ x ∈ first :: events, events.foldl Quantity.smaller first ≤ x := by
  induction events generalizing first with
  | nil =>
    obtain ⟨hfirst, -⟩ := List.forall_mem_cons.1 hdefined
    simpa using Quantity.le_refl hfirst
  | cons event events ih =>
    simp only [List.forall_mem_cons] at hdefined ⊢
    obtain ⟨hfirst, hevent, hevents⟩ := hdefined
    obtain ⟨hnan, hleFirst, hleEvent⟩ := Quantity.smaller_le hfirst hevent
    have hle := List.forall_mem_cons.1
      (ih (first.smaller event) (List.forall_mem_cons.2 ⟨hnan, hevents⟩))
    rw [List.foldl_cons]
    exact ⟨Quantity.le_trans hle.1 hleFirst, Quantity.le_trans hle.1 hleEvent, hle.2⟩

theorem isNext_of_nextEvent? (h : nextEvent? segments time = some event) :
    IsNext segments time event := by
  unfold nextEvent? at h
  split at h
  · cases h
  · rename_i first rest hevents
    cases h
    have hmem := foldl_smaller_mem rest first
    rw [← hevents, mem_eventsAfter_iff] at hmem
    refine ⟨hmem.1, hmem.2, fun other hother hafter => ?_⟩
    apply foldl_smaller_le
    · intro x hx
      rw [← hevents, mem_eventsAfter_iff, Quantity.lt_iff_place] at hx
      exact hx.2.2.1
    · rw [← hevents, mem_eventsAfter_iff]
      exact ⟨hother, hafter⟩

theorem not_lt_of_nextEvent? (h : nextEvent? segments time = none)
    (hevent : IsEvent segments event) : ¬time < event := by
  intro hafter
  have hmem := mem_eventsAfter_iff.2 ⟨hevent, hafter⟩
  unfold nextEvent? at h
  split at h
  · rename_i hevents
    rw [hevents] at hmem
    cases hmem
  · cases h

/-- The events after an event are some of those after a time before it, and the
event itself is not among them. -/
theorem IsNext.length_lt (h : IsNext segments time event) :
    (eventsAfter segments event).length < (eventsAfter segments time).length := by
  have hfilter : eventsAfter segments event =
      (eventsAfter segments time).filter fun x => event < x := by
    rw [eventsAfter, eventsAfter, List.filter_filter]
    refine List.filter_congr fun x _ => ?_
    rw [Bool.eq_iff_iff, Bool.and_eq_true, decide_eq_true_iff, decide_eq_true_iff]
    exact ⟨fun hx => ⟨hx, Quantity.lt_trans h.after hx⟩, And.left⟩
  rw [hfilter, List.length_filter_lt_length_iff_exists]
  refine ⟨event, mem_eventsAfter_iff.2 ⟨h.isEvent, h.after⟩, ?_⟩
  simpa using Quantity.lt_irrefl event

/-! ## Walks -/

/-- From a time on from one next event to the next, until there is none. -/
inductive Walk (segments : List Segment) : Quantity → List Quantity → Prop where
  | done {time : Quantity} (hnone : nextEvent? segments time = none) : Walk segments time []
  | step {time event : Quantity} {events : List Quantity}
      (hnext : nextEvent? segments time = some event) (hrest : Walk segments event events) :
      Walk segments time (event :: events)

theorem exists_walk (segments : List Segment) (time : Quantity) :
    ∃ events, Walk segments time events := by
  induction hcount : (eventsAfter segments time).length using Nat.strong_induction_on
    generalizing time with
  | _ count ih =>
    cases hnext : nextEvent? segments time with
    | none => exact ⟨[], .done hnext⟩
    | some event =>
      have hlt := (isNext_of_nextEvent? hnext).length_lt
      obtain ⟨events, hrest⟩ := ih _ (hcount ▸ hlt) event rfl
      exact ⟨event :: events, .step hnext hrest⟩

theorem Walk.eq {others : List Quantity} (h : Walk segments time events)
    (h' : Walk segments time others) : others = events := by
  induction h generalizing others with
  | done hnone =>
    cases h' with
    | done => rfl
    | step hnext => simp [hnone] at hnext
  | step hnext _ ih =>
    cases h' with
    | done hnone => simp [hnext] at hnone
    | step hnext' hrest =>
      obtain rfl := Option.some.inj (hnext.symm.trans hnext')
      rw [ih hrest]

theorem Walk.length_le (h : Walk segments time events) :
    events.length ≤ (eventsAfter segments time).length := by
  induction h with
  | done => exact Nat.zero_le _
  | step hnext _ ih =>
    have hlt := (isNext_of_nextEvent? hnext).length_lt
    rw [List.length_cons]
    omega

theorem Walk.isEvent (h : Walk segments time events) : ∀ x ∈ events, IsEvent segments x := by
  induction h with
  | done => simp
  | step hnext _ ih => exact List.forall_mem_cons.2 ⟨(isNext_of_nextEvent? hnext).isEvent, ih⟩

theorem Walk.pairwise (h : Walk segments time events) : (time :: events).Pairwise (· < ·) := by
  induction h with
  | done => exact List.pairwise_singleton ..
  | step hnext _ ih =>
    have hafter := (isNext_of_nextEvent? hnext).after
    refine List.pairwise_cons.2 ⟨List.forall_mem_cons.2 ⟨hafter, fun x hx => ?_⟩, ih⟩
    exact Quantity.lt_trans hafter ((List.pairwise_cons.1 ih).1 x hx)

/-- Each event after the time is visited. -/
theorem Walk.visits (h : Walk segments time events) (hevent : IsEvent segments other)
    (hafter : time < other) : ∃ x ∈ events, x ≤ other ∧ other ≤ x := by
  induction h with
  | done hnone => exact absurd hafter (not_lt_of_nextEvent? hnone hevent)
  | @step time event events hnext _ ih =>
    have hle := (isNext_of_nextEvent? hnext).least other hevent hafter
    by_cases hlt : event < other
    · obtain ⟨x, hx, hsame⟩ := ih hlt
      exact ⟨x, List.mem_cons_of_mem _ hx, hsame⟩
    · obtain ⟨hnan, hother, -⟩ := Quantity.le_iff_place.1 hle
      exact ⟨event, List.mem_cons_self .., hle, Quantity.le_of_not_lt hnan hother hlt⟩

/-- Nothing happens between two stops that follow each other. -/
theorem Walk.le_of_lt (h : Walk segments time events) (hstops : [a, b] <:+: time :: events)
    (hevent : IsEvent segments x) (hx : a < x) : b ≤ x := by
  induction h with
  | done => exact absurd hstops.length_le (by simp)
  | step hnext _ ih =>
    rcases List.infix_cons_iff.1 hstops with hfront | hlater
    · simp only [List.cons_prefix_cons, List.nil_prefix, and_true] at hfront
      obtain ⟨rfl, rfl⟩ := hfront
      exact (isNext_of_nextEvent? hnext).least x hevent hx
    · exact ih hlater

/-! ## Phases -/

/-- A quantity that does not lie between two others is on the same side of all
that is between them. -/
theorem same_side (h : a < x → b ≤ x) (hau : a < u) (hub : u < b) (hav : a < v) (hvb : v < b) :
    (x ≤ u ↔ x ≤ v) ∧ (u ≤ x ↔ v ≤ x) ∧ (x < u ↔ x < v) := by
  simp only [Quantity.lt_iff_place, Quantity.le_iff_place] at *
  obtain ⟨ha, hu, hau⟩ := hau
  obtain ⟨-, hb, hub⟩ := hub
  obtain ⟨-, hv, hav⟩ := hav
  obtain ⟨-, -, hvb⟩ := hvb
  simp only [ha, hb, hu, hv, true_and] at h ⊢
  by_cases hx : x.isNaN = false
  · simp only [hx, true_and] at h ⊢
    rcases le_or_gt x.place a.place with hle | hlt
    · have hxu := hle.trans_lt hau
      have hxv := hle.trans_lt hav
      simp [hxu.le, hxv.le, hxu, hxv, hxu.not_ge, hxv.not_ge]
    · have hux := hub.trans_le (h hlt)
      have hvx := hvb.trans_le (h hlt)
      simp [hux.le, hvx.le, hux.not_ge, hvx.not_ge, hux.le.not_gt, hvx.le.not_gt]
  · simp [hx]

theorem Walk.inPhase_eq (h : Walk segments time events) (hstops : [a, b] <:+: time :: events)
    (hau : a < u) (hub : u < b) (hav : a < v) (hvb : v < b) (p : Phase) :
    inPhase p segments u = inPhase p segments v := by
  refine List.filter_congr fun s hs => ?_
  have hphase : phase u s = phase v s := by
    obtain ⟨hstart, -, -⟩ := same_side (h.le_of_lt hstops ⟨s, hs, .inl rfl⟩) hau hub hav hvb
    obtain ⟨-, hfinish, hover⟩ := same_side (h.le_of_lt hstops ⟨s, hs, .inr rfl⟩) hau hub hav hvb
    simp only [phase, hstart, hfinish, hover]
  rw [hphase]

/-- Behind the last stop every segment is over. -/
theorem Walk.inPhase_completed (h : Walk segments time events)
    (hdefined : ∀ s ∈ segments, s.finish.isNaN = false) (hu : ∀ x ∈ time :: events, x < u) :
    inPhase .completed segments u = segments := by
  refine List.filter_eq_self.2 fun s hs => ?_
  rw [decide_eq_true_iff, phase_eq_completed_iff]
  by_cases hafter : time < s.finish
  · obtain ⟨x, hx, -, hle⟩ := h.visits ⟨s, hs, .inr rfl⟩ hafter
    exact Quantity.lt_of_le_of_lt hle (hu x (List.mem_cons_of_mem _ hx))
  · have htime := hu time (List.mem_cons_self ..)
    have hnan := (Quantity.lt_iff_place.1 htime).1
    exact Quantity.lt_of_le_of_lt (Quantity.le_of_not_lt hnan (hdefined s hs) hafter) htime

/-- Each segment is in one phase. -/
theorem perm_inPhase (segments : List Segment) (time : Quantity) :
    (inPhase .active segments time ++ inPhase .completed segments time ++
      inPhase .upcoming segments time).Perm segments := by
  induction segments with
  | nil => exact .nil
  | cons s segments ih =>
    simp only [inPhase_cons]
    cases phase time s with
    | active => simpa using ih
    | completed =>
      simp only [reduceCtorEq, if_false, if_true, List.append_assoc, List.cons_append] at ih ⊢
      exact List.perm_middle.trans (ih.cons s)
    | upcoming =>
      simp only [reduceCtorEq, if_false, if_true] at ih ⊢
      exact List.perm_middle.trans (ih.cons s)

/-! ## What a walk visits -/

/-- The events visited from a time on are those after it, in order, and nothing
changes from one to the next nor behind the last one. -/
structure Visits (segments : List Segment) (time : Quantity) (events : List Quantity) : Prop where
  length_le : events.length ≤ 2 * segments.length
  increasing : (time :: events).Pairwise (· < ·)
  isEvent : ∀ x ∈ events, IsEvent segments x
  complete : ∀ other, IsEvent segments other → time < other → ∃ x ∈ events, x ≤ other ∧ other ≤ x
  steady : ∀ a b, [a, b] <:+: time :: events → ∀ u v, a < u → u < b → a < v → v < b →
    ∀ p, inPhase p segments u = inPhase p segments v
  completed : ∀ u, (∀ x ∈ time :: events, x < u) → inPhase .completed segments u = segments

/-- The end of a segment can be computed, and it is not undefined. -/
structure HasFinish (s : Segment) : Prop where
  fits : s.start.fits s.duration = true
  isNaN_eq : s.finish.isNaN = false

instance (s : Segment) : Decidable (HasFinish s) :=
  decidable_of_iff (s.start.fits s.duration = true ∧ s.finish.isNaN = false)
    ⟨fun h => ⟨h.1, h.2⟩, fun h => ⟨h.1, h.2⟩⟩

/-- From every time there is one walk, and it visits every change.  At every time
each segment is in one phase, and each phase keeps the order of the segments. -/
theorem walk_visits {segments : List Segment} {time : Quantity}
    (hfinish : ∀ s ∈ segments, HasFinish s) :
    (∃! events, Walk segments time events) ∧
      (∀ events, Walk segments time events → Visits segments time events) ∧
      ∀ u, (inPhase .active segments u ++ inPhase .completed segments u ++
          inPhase .upcoming segments u).Perm segments ∧
        ∀ p, (inPhase p segments u).Sublist segments := by
  refine ⟨?_, ?_, ?_⟩
  · obtain ⟨events, hwalk⟩ := exists_walk segments time
    exact ⟨events, hwalk, fun _ => hwalk.eq⟩
  · intro events hwalk
    exact {
      length_le := hwalk.length_le.trans (length_eventsAfter_le segments time)
      increasing := hwalk.pairwise
      isEvent := hwalk.isEvent
      complete := fun _ => hwalk.visits
      steady := fun _ _ hstops _ _ => hwalk.inPhase_eq hstops
      completed := fun _ => hwalk.inPhase_completed fun s hs => (hfinish s hs).isNaN_eq }
  · intro u
    exact ⟨perm_inPhase segments u, fun _ => List.filter_sublist⟩

/-- Segments that overlap; one lasts less than no time, and one without end. -/
def fourTexts : List Segment :=
  [{ text := ['a'], index := 0, start := .real 0, duration := .real 2 },
    { text := ['b'], index := 1, start := .real 1, duration := .real 3 },
    { text := ['c'], index := 2, start := .real 2, duration := .real (-1) },
    { text := ['d'], index := 3, start := .whole 2, duration := .real (.infinity false) }]

theorem walk_visits_fourTexts :
    (∀ s ∈ fourTexts, HasFinish s) ∧
      Visits fourTexts (.real 0) [.real 1, .real 2, .real 4, .real (.infinity false)] := by
  have hfinish : ∀ s ∈ fourTexts, HasFinish s := by decide +kernel
  have hwalk : Walk fourTexts (.real 0) [.real 1, .real 2, .real 4, .real (.infinity false)] := by
    repeat refine .step (by decide +kernel) ?_
    exact .done (by decide +kernel)
  obtain ⟨-, hvisits, -⟩ := walk_visits hfinish
  exact ⟨hfinish, hvisits _ hwalk⟩

end Timeline

end KineticText
