import KineticText.Canvas.PowerSeries
import KineticText.Proofs.Canvas.Settling
import KineticText.Proofs.Number.Line
import Mathlib.Data.Prod.Lex
import Mathlib.Order.Bounds.Basic

/-!
# The first fit

The places a search looks at are counted by ring and by place on the ring, both
from zero.  A text without a tag takes the first one in this order that is free,
and the middle, with advice, where none is free and the rings come to an end
(`choosePlace_firstFit`).

Boxes stand for the nearest doubles in a search.  That makes no difference for
sides that are doubles (`Box.IsExact.overlaps_rounded`).  For others it does: a
place may be apart from a box and not from the rounded one
(`choosePlace_farBox`).

There are six groups: boxes, what a search asks for, the places of a search, one
ring, the search, and the place of a text.
-/

namespace KineticText

namespace Box

/-! ## Boxes -/

/-- The nearest doubles are at the places of the sides. -/
structure IsExact (b : Box) : Prop where
  left : b.left.IsExact
  top : b.top.IsExact
  right : b.right.IsExact
  bottom : b.bottom.IsExact

theorem IsExact.overlaps_rounded {b : Box} (h : b.IsExact) (a : Box) :
    a.overlaps b.rounded = a.overlaps b := by
  simp only [overlaps, rounded, h.left.lt_rounded_iff, h.right.rounded_lt_iff,
    h.top.lt_rounded_iff, h.bottom.rounded_lt_iff]

end Box

namespace Canvas

variable {c : Canvas} {e : Extent} {occupied : List Box} {place : Position} {count i j : ℕ}

theorem freePlace_rounded_iff (h : ∀ b ∈ occupied, b.IsExact) :
    c.FreePlace e (occupied.map Box.rounded) place ↔ c.FreePlace e occupied place := by
  constructor
  · intro hfree
    refine ⟨hfree.inside, fun b hb => ?_⟩
    rw [← (h b hb).overlaps_rounded]
    exact hfree.apart _ (List.mem_map_of_mem hb)
  · intro hfree
    refine ⟨hfree.inside, List.forall_mem_map.2 fun b hb => ?_⟩
    rw [(h b hb).overlaps_rounded]
    exact hfree.apart b hb

/-! ## What a search asks for -/

/-- The numbers that a search combines are doubles or can become some, and where
there is a ring, it has a number of places. -/
structure CanSearch (c : Canvas) (e : Extent) (occupied : List Box) : Prop where
  boxes : occupied.all Box.hasDoubles = true
  center : c.hasCenter = true
  size : e.hasDoubles = true
  samples : 0 < c.shortSide.half → ∃ count, ringCount c.ringSamples = .ok count
  margin : 0 < c.shortSide.half → c.margin.hasDouble = true
  spacing : 0 < c.shortSide.half → (occupied.isEmpty || c.minSpacing.hasDouble) = true

/-- The rings come to an end: a radius reaches the limit.  Steps are taken where
there is a ring. -/
structure RingsEnd (c : Canvas) : Prop where
  limit : ∃ n, ¬c.radiusAt n < c.shortSide.half
  step : 0 < c.shortSide.half → c.ringStep.hasDouble = true

theorem CanSearch.canStart (h : c.CanSearch e occupied) : c.CanStart occupied :=
  ⟨h.boxes, hasDouble_shortSide h.center⟩

/-- Where there is a ring, this is what the search asks of the numbers. -/
theorem canSearch_iff_of_lt (hlimit : 0 < c.shortSide.half) :
    c.CanSearch e occupied ↔ c.CanStart occupied ∧ c.hasCenter = true ∧
      (∃ count, ringCount c.ringSamples = .ok count) ∧ c.canCompare e occupied = true := by
  rw [canCompare, Bool.and_eq_true, Bool.and_eq_true]
  constructor
  · intro h
    exact ⟨h.canStart, h.center, h.samples hlimit, ⟨h.size, h.margin hlimit⟩, h.spacing hlimit⟩
  · rintro ⟨hstart, hcenter, hsamples, ⟨hsize, hmargin⟩, hspacing⟩
    exact ⟨hstart.boxes, hcenter, hsize, fun _ => hsamples, fun _ => hmargin, fun _ => hspacing⟩

section Samples

variable [Trigonometry]

/-! ## The places of a search -/

/-- Place `i` on ring `j`. -/
def samplePlace (c : Canvas) (e : Extent) (j i : ℕ) : Position :=
  ringPlace c.center e.half (c.radiusAt j) (Circle.direction c.ringSamples.toBinary64 i)

/-- Place `i` on ring `j` is one that a search looks at, and is free. -/
structure FreeSample (c : Canvas) (e : Extent) (occupied : List Box) (j i : ℕ) : Prop where
  ring : c.radiusAt j < c.shortSide.half
  sample : ∃ count, ringCount c.ringSamples = .ok count ∧ i < count
  free : c.FreePlace e occupied (c.samplePlace e j i)

/-- The free places of a search, in the order of the rings. -/
def freeSamples (c : Canvas) (e : Extent) (occupied : List Box) : Set (ℕ ×ₗ ℕ) :=
  {p | c.FreeSample e occupied (ofLex p).1 (ofLex p).2}

theorem mem_freeSamples :
    toLex (j, i) ∈ c.freeSamples e occupied ↔ c.FreeSample e occupied j i :=
  Iff.rfl

/-- A free place is the first one if none is free on an earlier ring, or earlier
on its ring. -/
theorem isLeast_freeSamples_iff :
    IsLeast (c.freeSamples e occupied) (toLex (j, i)) ↔ c.FreeSample e occupied j i ∧
      (∀ j' < j, ∀ i', ¬c.FreeSample e occupied j' i') ∧
        ∀ i' < i, ¬c.FreeSample e occupied j i' := by
  constructor
  · intro h
    refine ⟨h.1, fun j' hj i' hfree => ?_, fun i' hi hfree => ?_⟩
    · exact absurd (h.2 (mem_freeSamples.2 hfree)) (not_le.2 (Prod.Lex.lt_iff.2 (.inl hj)))
    · exact absurd (h.2 (mem_freeSamples.2 hfree)) (not_le.2 (Prod.Lex.lt_iff.2 (.inr ⟨rfl, hi⟩)))
  · intro h
    obtain ⟨hfree, hrings, hsamples⟩ := h
    refine ⟨hfree, fun p hp => ?_⟩
    obtain ⟨⟨j', i'⟩, rfl⟩ := toLex.surjective p
    by_contra hlt
    rcases Prod.Lex.lt_iff.1 (not_le.1 hlt) with hj | ⟨hj, hi⟩
    · exact hrings j' hj i' hp
    · obtain rfl : j' = j := hj
      exact hsamples i' hi hp

/-- Boxes whose sides are doubles leave the same places free when they are
rounded. -/
theorem freeSamples_rounded (h : ∀ b ∈ occupied, b.IsExact) :
    c.freeSamples e (occupied.map Box.rounded) = c.freeSamples e occupied := by
  ext p
  constructor
  · intro hp
    exact ⟨hp.ring, hp.sample, (freePlace_rounded_iff h).1 hp.free⟩
  · intro hp
    exact ⟨hp.ring, hp.sample, (freePlace_rounded_iff h).2 hp.free⟩

theorem exists_isLeast_freeSamples (h : (c.freeSamples e occupied).Nonempty) :
    ∃ j i, IsLeast (c.freeSamples e occupied) (toLex (j, i)) := by
  obtain ⟨p, hp⟩ := WellFoundedLT.exists_minimal inferInstance _ h
  exact ⟨(ofLex p).1, (ofLex p).2, minimal_iff_isLeast.1 hp⟩

/-! ## One ring -/

theorem freeOnRing?_radiusAt_eq :
    c.freeOnRing? (Circle.directions c.ringSamples.toBinary64 count) e occupied (c.radiusAt j) =
      ((List.range count).find? fun i => c.isFree e occupied (c.samplePlace e j i)).map
        (c.samplePlace e j) := by
  rw [freeOnRing?_eq, Circle.directions, List.map_map, List.find?_map]
  rfl

section Search

variable (hcount : ringCount c.ringSamples = .ok count)
include hcount

theorem freeSample_iff (hring : c.radiusAt j < c.shortSide.half) :
    c.FreeSample e occupied j i ↔ i < count ∧ c.FreePlace e occupied (c.samplePlace e j i) := by
  constructor
  · intro h
    obtain ⟨count', hcount', hi⟩ := h.sample
    obtain rfl := Except.ok.inj (hcount.symm.trans hcount')
    exact ⟨hi, h.free⟩
  · intro h
    exact ⟨hring, ⟨count, hcount, h.1⟩, h.2⟩

/-- A ring below the limit has no answer where none of its places is free. -/
theorem freeOnRing?_radiusAt_eq_none_iff (hring : c.radiusAt j < c.shortSide.half) :
    c.freeOnRing? (Circle.directions c.ringSamples.toBinary64 count) e occupied (c.radiusAt j) =
      none ↔ ∀ i, ¬c.FreeSample e occupied j i := by
  rw [freeOnRing?_radiusAt_eq, Option.map_eq_none_iff, List.find?_eq_none]
  simp only [List.mem_range, isFree_iff, freeSample_iff hcount hring, not_and]

/-- The answer of a ring below the limit is the first of its places that is free. -/
theorem freeOnRing?_radiusAt_eq_some_iff (hring : c.radiusAt j < c.shortSide.half) :
    c.freeOnRing? (Circle.directions c.ringSamples.toBinary64 count) e occupied (c.radiusAt j) =
      some place ↔ ∃ i, c.FreeSample e occupied j i ∧
        (∀ k < i, ¬c.FreeSample e occupied j k) ∧ c.samplePlace e j i = place := by
  rw [freeOnRing?_radiusAt_eq, Option.map_eq_some_iff]
  refine exists_congr fun i => ?_
  rw [List.find?_range_eq_some]
  constructor
  · intro h
    obtain ⟨⟨hfree, hi, hbefore⟩, hplace⟩ := h
    refine ⟨?_, fun k hk hfreeSample => ?_, hplace⟩
    · exact (freeSample_iff hcount hring).2 ⟨List.mem_range.1 hi, isFree_iff.1 hfree⟩
    · have hbusy := hbefore k hk
      rw [isFree_iff.2 hfreeSample.free] at hbusy
      cases hbusy
  · intro h
    obtain ⟨hfree, hbefore, hplace⟩ := h
    obtain ⟨hi, hfreePlace⟩ := (freeSample_iff hcount hring).1 hfree
    refine ⟨⟨isFree_iff.2 hfreePlace, List.mem_range.2 hi, fun k hk => ?_⟩, hplace⟩
    rw [Bool.not_eq_true', ← Bool.not_eq_true, isFree_iff]
    exact fun hfree' => hbefore k hk ((freeSample_iff hcount hring).2 ⟨hk.trans hi, hfree'⟩)

/-! ## The search -/

/-- A search finds the first free place. -/
theorem search_eq_found_iff_isLeast :
    c.search (Circle.directions c.ringSamples.toBinary64 count) e occupied = .found place ↔
      ∃ j i, IsLeast (c.freeSamples e (occupied.map Box.rounded)) (toLex (j, i)) ∧
        c.samplePlace e j i = place := by
  refine search_eq_found_iff.trans (exists_congr fun j => ?_)
  constructor
  · intro h
    obtain ⟨hbelow, hbefore, hplace⟩ := h
    obtain ⟨i, hfree, hfirst, hplace⟩ :=
      (freeOnRing?_radiusAt_eq_some_iff hcount (hbelow j le_rfl)).1 hplace
    refine ⟨i, isLeast_freeSamples_iff.2 ⟨hfree, fun j' hj => ?_, hfirst⟩, hplace⟩
    exact (freeOnRing?_radiusAt_eq_none_iff hcount (hbelow j' hj.le)).1 (hbefore j' hj)
  · intro h
    obtain ⟨i, hleast, hplace⟩ := h
    obtain ⟨hfree, hrings, hfirst⟩ := isLeast_freeSamples_iff.1 hleast
    have hbelow (m : ℕ) (hm : m ≤ j) := radiusAt_lt_of_le hm hfree.ring
    refine ⟨hbelow, fun m hm => ?_, ?_⟩
    · exact (freeOnRing?_radiusAt_eq_none_iff hcount (hbelow m hm.le)).2 (hrings m hm)
    · exact (freeOnRing?_radiusAt_eq_some_iff hcount hfree.ring).2 ⟨i, hfree, hfirst, hplace⟩

/-- A search is full where no place is free and the rings come to an end. -/
theorem search_eq_full_iff :
    c.search (Circle.directions c.ringSamples.toBinary64 count) e occupied = .full ↔
      c.freeSamples e (occupied.map Box.rounded) = ∅ ∧
        ∃ n, ¬c.radiusAt n < c.shortSide.half := by
  cases hsearch : c.search (Circle.directions c.ringSamples.toBinary64 count) e occupied with
  | found place =>
    obtain ⟨j, i, hleast, -⟩ := (search_eq_found_iff_isLeast hcount).1 hsearch
    refine iff_of_false (by simp) fun h => ?_
    exact Set.notMem_empty _ (h.1 ▸ hleast.1)
  | full =>
    have hempty : c.freeSamples e (occupied.map Box.rounded) = ∅ := by
      by_contra hnonempty
      obtain ⟨j, i, hleast⟩ := exists_isLeast_freeSamples (Set.nonempty_iff_ne_empty.2 hnonempty)
      cases hsearch.symm.trans ((search_eq_found_iff_isLeast hcount).2 ⟨j, i, hleast, rfl⟩)
    refine iff_of_true rfl ⟨hempty, ?_⟩
    by_contra hbelow
    push Not at hbelow
    -- A search among rings that are all below the limit and have no answer is endless.
    have hnone (n : ℕ) := (freeOnRing?_radiusAt_eq_none_iff hcount (hbelow n)).2 fun i hfree =>
      Set.eq_empty_iff_forall_notMem.1 hempty _ (mem_freeSamples.2 hfree)
    cases hsearch.symm.trans (search_eq_endless_iff.2 fun n => ⟨hbelow n, hnone n⟩)
  | endless =>
    refine iff_of_false (by simp) fun h => ?_
    obtain ⟨n, hn⟩ := h.2
    exact hn (search_eq_endless_iff.1 hsearch n).1

end Search

/-! ## The place of a text -/

theorem FreeSample.half_pos (h : c.FreeSample e occupied j i) : 0 < c.shortSide.half := by
  have hfirst := radiusAt_lt_of_le j.zero_le h.ring
  rwa [radiusAt_zero] at hfirst

theorem ringDirections_eq_ok_iff {samples : Quantity} {directions : List (Binary64 × Binary64)} :
    ringDirections samples = .ok directions ↔
      ∃ count, ringCount samples = .ok count ∧
        Circle.directions samples.toBinary64 count = directions := by
  rw [ringDirections, bind_eq_ok_iff]
  simp only [pure, Except.pure, Except.ok.injEq]

/-- A free place is the first one of those that are free. -/
theorem freePlace?_eq_some_iff :
    c.freePlace? (ringDirections c.ringSamples) e occupied = .ok (some place) ↔
      c.CanSearch e occupied ∧
        ∃ j i, IsLeast (c.freeSamples e (occupied.map Box.rounded)) (toLex (j, i)) ∧
          place = c.samplePlace e j i := by
  by_cases hlimit : 0 < c.shortSide.half
  · rw [freePlace?_eq_ok_iff_of_lt hlimit, canSearch_iff_of_lt hlimit]
    constructor
    · rintro ⟨hstart, hcenter, directions, hdirections, hcompare, ⟨found, hsearch, hfound⟩ |
        ⟨-, -, ⟨⟩⟩⟩
      cases hfound
      obtain ⟨count, hcount, rfl⟩ := ringDirections_eq_ok_iff.1 hdirections
      obtain ⟨j, i, hleast, rfl⟩ := (search_eq_found_iff_isLeast hcount).1 hsearch
      exact ⟨⟨hstart, hcenter, ⟨count, hcount⟩, hcompare⟩, j, i, hleast, rfl⟩
    · rintro ⟨⟨hstart, hcenter, ⟨count, hcount⟩, hcompare⟩, j, i, hleast, rfl⟩
      refine ⟨hstart, hcenter, _, ringDirections_eq_ok_iff.2 ⟨count, hcount, rfl⟩, hcompare, ?_⟩
      exact .inl ⟨_, (search_eq_found_iff_isLeast hcount).2 ⟨j, i, hleast, rfl⟩, rfl⟩
  · rw [freePlace?_eq_ok_iff_of_not_lt hlimit]
    refine iff_of_false (fun h => by cases h.2) fun h => ?_
    obtain ⟨-, j, i, hleast, -⟩ := h
    exact hlimit (mem_freeSamples.1 hleast.1).half_pos

/-- There is no free place, and one in the middle, where no place is free and the
rings come to an end. -/
theorem freePlace?_eq_none_iff :
    (c.freePlace? (ringDirections c.ringSamples) e occupied = .ok none ∧ c.hasCenter = true ∧
        e.hasDoubles = true) ↔
      c.CanSearch e occupied ∧ c.freeSamples e (occupied.map Box.rounded) = ∅ ∧ c.RingsEnd := by
  by_cases hlimit : 0 < c.shortSide.half
  · rw [freePlace?_eq_ok_iff_of_lt hlimit, canSearch_iff_of_lt hlimit]
    constructor
    · rintro ⟨⟨hstart, hcenter, directions, hdirections, hcompare, ⟨found, -, ⟨⟩⟩ |
        ⟨hsearch, hstep, -⟩⟩, -⟩
      obtain ⟨count, hcount, rfl⟩ := ringDirections_eq_ok_iff.1 hdirections
      obtain ⟨hempty, hends⟩ := (search_eq_full_iff hcount).1 hsearch
      exact ⟨⟨hstart, hcenter, ⟨count, hcount⟩, hcompare⟩, hempty, hends, fun _ => hstep⟩
    · rintro ⟨⟨hstart, hcenter, ⟨count, hcount⟩, hcompare⟩, hempty, hends⟩
      refine ⟨⟨hstart, hcenter, _, ringDirections_eq_ok_iff.2 ⟨count, hcount, rfl⟩, hcompare, ?_⟩,
        hcenter, ?_⟩
      · exact .inr ⟨(search_eq_full_iff hcount).2 ⟨hempty, hends.limit⟩, hends.step hlimit, rfl⟩
      · rw [canCompare, Bool.and_eq_true, Bool.and_eq_true] at hcompare
        exact hcompare.1.1
  · -- Without a ring there is no free place, and nothing more is asked of the numbers.
    rw [freePlace?_eq_ok_iff_of_not_lt hlimit]
    constructor
    · rintro ⟨⟨hstart, -⟩, hcenter, hsize⟩
      refine ⟨⟨hstart.boxes, hcenter, hsize, ?_, ?_, ?_⟩, ?_, ⟨0, hlimit⟩, ?_⟩
      · exact fun hpos => absurd hpos hlimit
      · exact fun hpos => absurd hpos hlimit
      · exact fun hpos => absurd hpos hlimit
      · exact Set.eq_empty_iff_forall_notMem.2 fun p hp => hlimit hp.half_pos
      · exact fun hpos => absurd hpos hlimit
    · rintro ⟨hcan, -, -⟩
      exact ⟨⟨hcan.canStart, rfl⟩, hcan.center, hcan.size⟩

/-- Without a tag, a place is chosen as the first free one, or in the middle where
none is free. -/
theorem chooses_iff {g g' : Generator} {s : Segment} {advice : List Diagnostic}
    (hs : s.isTagged = false) :
    c.Chooses (ringDirections c.ringSamples) occupied g s e place advice g' ↔
      c.CanSearch e occupied ∧ g' = g ∧
        ((∃ j i, IsLeast (c.freeSamples e (occupied.map Box.rounded)) (toLex (j, i)) ∧
            place = c.samplePlace e j i ∧ advice = []) ∨
          c.freeSamples e (occupied.map Box.rounded) = ∅ ∧ c.RingsEnd ∧
            place = c.centered e ∧ advice = [.layoutOverflow s.text s.index]) := by
  constructor
  · intro h
    cases h with
    | tagged htag => cases hs.symm.trans htag
    | free _ hfree =>
      obtain ⟨hcan, j, i, hleast, hplace⟩ := freePlace?_eq_some_iff.1 hfree
      exact ⟨hcan, rfl, .inl ⟨j, i, hleast, hplace, rfl⟩⟩
    | middle _ hfull hcenter hsize =>
      obtain ⟨hcan, hempty, hends⟩ := freePlace?_eq_none_iff.1 ⟨hfull, hcenter, hsize⟩
      exact ⟨hcan, rfl, .inr ⟨hempty, hends, rfl, rfl⟩⟩
  · rintro ⟨hcan, rfl, ⟨j, i, hleast, hplace, rfl⟩ | ⟨hempty, hends, rfl, rfl⟩⟩
    · exact .free hs (freePlace?_eq_some_iff.2 ⟨hcan, j, i, hleast, hplace⟩)
    · obtain ⟨hfull, hcenter, hsize⟩ := freePlace?_eq_none_iff.2 ⟨hcan, hempty, hends⟩
      exact .middle hs hfull hcenter hsize

/-- The search is complete and takes the first fit: a text without a tag is put
at the first free place, without advice, or in the middle, with advice, where
none is free and the rings end; there is no result otherwise, and no draw in any
case.  The mask of places agrees with the check of each one, box against box.
Boxes are rounded, which makes no difference where their sides are doubles. -/
theorem choosePlace_firstFit (c : Canvas) (occupied : List Box) (e : Extent) (s : Segment)
    (hs : s.isTagged = false) :
    (∀ engine place engine',
      (c.choosePlace (ringDirections c.ringSamples) occupied s e).run engine =
          .ok place engine' ↔
        c.CanSearch e occupied ∧ engine'.generator = engine.generator ∧
          ((∃ j i, IsLeast (c.freeSamples e (occupied.map Box.rounded)) (toLex (j, i)) ∧
              place = c.samplePlace e j i ∧ engine'.diagnostics = engine.diagnostics) ∨
            c.freeSamples e (occupied.map Box.rounded) = ∅ ∧ c.RingsEnd ∧
              place = c.centered e ∧
              engine'.diagnostics =
                engine.diagnostics ++ [.layoutOverflow s.text s.index])) ∧
      (∀ engine f engine',
        (c.choosePlace (ringDirections c.ringSamples) occupied s e).run engine =
          .error f engine' → engine'.generator = engine.generator) ∧
      (∀ boxes places, c.validMask e boxes places = places.map fun place =>
        c.insideMargins e place &&
          boxes.all fun box => !(Box.around place e c.minSpacing).overlaps box) ∧
      ((∀ b ∈ occupied, b.IsExact) →
        c.freeSamples e (occupied.map Box.rounded) = c.freeSamples e occupied) := by
  refine ⟨fun engine place engine' => ?_, ?_, fun _ => validMask_eq, freeSamples_rounded⟩
  · rw [run_choosePlace_eq_ok_iff]
    simp only [chooses_iff hs]
    constructor
    · rintro ⟨advice, ⟨hcan, hgenerator, ⟨j, i, hleast, hplace, rfl⟩ |
        ⟨hempty, hends, hplace, rfl⟩⟩, hdiagnostics⟩
      · rw [List.append_nil] at hdiagnostics
        exact ⟨hcan, hgenerator, .inl ⟨j, i, hleast, hplace, hdiagnostics⟩⟩
      · exact ⟨hcan, hgenerator, .inr ⟨hempty, hends, hplace, hdiagnostics⟩⟩
    · rintro ⟨hcan, hgenerator, ⟨j, i, hleast, hplace, hdiagnostics⟩ |
        ⟨hempty, hends, hplace, hdiagnostics⟩⟩
      · refine ⟨[], ⟨hcan, hgenerator, .inl ⟨j, i, hleast, hplace, rfl⟩⟩, ?_⟩
        rw [hdiagnostics, List.append_nil]
      · exact ⟨_, ⟨hcan, hgenerator, .inr ⟨hempty, hends, hplace, rfl⟩⟩, hdiagnostics⟩
  · intro engine f engine' h
    exact generator_of_choosePlace_error hs h

end Samples

/-- A letter beside another one in the middle. -/
theorem choosePlace_firstFit_letter :
    ({ text := ['b'], index := 1 } : Segment).isTagged = false ∧
      ∃ j i, IsLeast (smallCanvas.freeSamples ⟨.real 2, .real 2⟩
          [⟨.whole 4, .whole 4, .whole 6, .whole 6⟩]) (toLex (j, i)) ∧
        smallCanvas.samplePlace ⟨.real 2, .real 2⟩ j i = ⟨.real 8, .real 4⟩ := by
  let e : Extent := ⟨.real 2, .real 2⟩
  let box : Box := ⟨.whole 4, .whole 4, .whole 6, .whole 6⟩
  let engine : Engine := ⟨⟨#[], 0⟩, []⟩
  have hchosen : (smallCanvas.choosePlace (ringDirections smallCanvas.ringSamples) [box]
      { text := ['b'], index := 1 } e).run engine = .ok ⟨.real 8, .real 4⟩ engine :=
    run_choosePlace_eq_ok_iff.2 ⟨[], .free rfl (by decide +kernel), rfl⟩
  have hexact : ∀ b ∈ [box], b.IsExact := by
    intro b hb
    rw [List.mem_singleton.1 hb]
    constructor <;> exact Quantity.isExact_of_whole? rfl (by decide)
  obtain ⟨hiff, -, -, hrounded⟩ :=
    choosePlace_firstFit smallCanvas [box] e { text := ['b'], index := 1 } rfl
  obtain ⟨-, -, ⟨j, i, hleast, hplace, -⟩ | ⟨-, -, -, ⟨⟩⟩⟩ := (hiff _ _ _).1 hchosen
  rw [hrounded hexact] at hleast
  exact ⟨rfl, j, i, hleast, hplace.symm⟩

/-- A canvas on which not every whole number is a double. -/
def farCanvas : Canvas :=
  { smallCanvas with
    width := .whole 18014398509482000
    height := .whole 18014398509482000
    margin := .whole 3
    minSpacing := .whole 0
    ringStep := .real 4503599627370492
    width_pos := by decide +kernel
    height_pos := by decide +kernel
    margin_nonneg := by decide +kernel
    minSpacing_nonneg := by decide +kernel
    ringStep_pos := by decide +kernel }

/-- The extent of a text half as wide and high as the canvas. -/
def farExtent : Extent := ⟨.whole 9007199254740992, .whole 9007199254740992⟩

/-- The box of such an extent at the margins, with odd sides. -/
def farBox : Box := ⟨.whole 3, .whole 3, .whole 9007199254740995, .whole 9007199254740995⟩

/-- The second ring has a place apart from a box by one, which is no longer free
when the box is rounded. -/
theorem choosePlace_farBox :
    toLex (1, 0) ∈ farCanvas.freeSamples farExtent [farBox] ∧
      (farCanvas.choosePlace (ringDirections farCanvas.ringSamples) [farBox]
          { text := ['b'], index := 1 } farExtent).run ⟨⟨#[], 0⟩, []⟩ =
        .ok (farCanvas.centered farExtent) ⟨⟨#[], 0⟩, [.layoutOverflow ['b'] 1]⟩ := by
  constructor
  · exact ⟨by decide +kernel, ⟨1, by decide +kernel, Nat.one_pos⟩, by decide +kernel⟩
  · exact run_choosePlace_eq_ok_iff.2 ⟨_, .middle rfl (by decide +kernel) (by decide +kernel) (by decide +kernel), rfl⟩

end Canvas

end KineticText
