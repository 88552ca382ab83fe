import KineticText.Canvas.PowerSeries
import KineticText.Proofs.Canvas.Search

/-!
# Layouts that have a result

Where the numbers of a canvas are doubles, nothing in a layout is too large or
of the wrong kind: doubles are combined to doubles.  So a layout has a result
if the searches that it makes come to an end (`settles_of_searchesEnd`), and
nothing but a search keeps it from one (`layoutFrom_eq`).

They do if a ring has a number of places and no radius stalls.  The constructor
of a canvas does not see to that: on a canvas without an end, or with a step
that is small beside it, the radius stops growing below its limit
(`layout_endless`).  With this condition layouts always have a result
(`layout_settles`).

There are four groups: quantities that are doubles, one step, layouts, and the
end of the rings.
-/

namespace KineticText

/-! ## Doubles -/

namespace Quantity

/-- The quantity is a double, and not a whole number or a truth value. -/
def IsReal (q : Quantity) : Prop := ∃ x, q = real x

variable {p q : Quantity}

theorem IsReal.add (hp : p.IsReal) (hq : q.IsReal) : (p + q).IsReal := by
  obtain ⟨x, rfl⟩ := hp
  obtain ⟨y, rfl⟩ := hq
  exact ⟨_, real_add_real x y⟩

theorem IsReal.sub (hp : p.IsReal) (hq : q.IsReal) : (p - q).IsReal := by
  obtain ⟨x, rfl⟩ := hp
  obtain ⟨y, rfl⟩ := hq
  exact ⟨_, real_sub_real x y⟩

theorem IsReal.smaller (hp : p.IsReal) (hq : q.IsReal) : (p.smaller q).IsReal := by
  rw [Quantity.smaller]
  split_ifs
  · exact hq
  · exact hp

theorem IsReal.larger (hp : p.IsReal) (hq : q.IsReal) : (p.larger q).IsReal := by
  rw [Quantity.larger]
  split_ifs
  · exact hq
  · exact hp

theorem IsReal.fits (hp : p.IsReal) (hq : q.IsReal) : p.fits q = true := by
  obtain ⟨x, rfl⟩ := hp
  obtain ⟨y, rfl⟩ := hq
  exact fits_real x y

theorem IsReal.hasDouble (hq : q.IsReal) : q.hasDouble = true := by
  obtain ⟨x, rfl⟩ := hq
  rfl

end Quantity

structure Position.IsReal (p : Position) : Prop where
  x : p.x.IsReal
  y : p.y.IsReal

structure Extent.IsReal (e : Extent) : Prop where
  width : e.width.IsReal
  height : e.height.IsReal

theorem Extent.IsReal.hasDoubles {e : Extent} (he : e.IsReal) : e.hasDoubles = true := by
  rw [Extent.hasDoubles, he.width.hasDouble, he.height.hasDouble]
  rfl

theorem Box.exists_of {p : Position} {e : Extent} {spacing : Quantity} (hp : p.IsReal)
    (he : e.IsReal) (hspacing : spacing.IsReal) : ∃ b, Box.of p e spacing = .ok b := by
  refine ⟨_, if_pos ?_⟩
  rw [fits, hp.x.fits hspacing, hp.x.fits he.width, (hp.x.add he.width).fits hspacing,
    hp.y.fits hspacing, hp.y.fits he.height, (hp.y.add he.height).fits hspacing]
  rfl

theorem Box.hasDoubles_of {p : Position} {e : Extent} {spacing : Quantity} {b : Box}
    (hp : p.IsReal) (he : e.IsReal) (hspacing : spacing.IsReal)
    (h : Box.of p e spacing = .ok b) : b.hasDoubles = true := by
  rw [Box.of] at h
  split_ifs at h
  cases h
  simp [hasDoubles, around, (hp.x.sub hspacing).hasDouble, (hp.y.sub hspacing).hasDouble,
    ((hp.x.add he.width).add hspacing).hasDouble, ((hp.y.add he.height).add hspacing).hasDouble]

namespace Canvas

/-- The numbers of the canvas that a layout looks at are doubles, but for the
number of places on a ring. -/
structure HasDoubles (c : Canvas) : Prop where
  width : c.width.IsReal
  height : c.height.IsReal
  margin : c.margin.IsReal
  minSpacing : c.minSpacing.IsReal
  ringStep : c.ringStep.IsReal
  fontSize : ∃ x, c.fontSize = .real x
  glyphWidthRatio : ∃ x, c.glyphWidthRatio = .real x
  lineHeightRatio : ∃ x, c.lineHeightRatio = .real x
  jitterRatio : ∃ x, c.jitterRatio = .real x

theorem extentOf_eq {c : Canvas} {font glyph line : Binary64} (hfont : c.fontSize = .real font)
    (hglyph : c.glyphWidthRatio = .real glyph) (hline : c.lineHeightRatio = .real line)
    (text : List Char) : c.extentOf text =
      .ok ⟨.real (.ofInt text.length * font * glyph), .real (font * line)⟩ := by
  rw [extentOf, hfont, hglyph, hline]
  rfl

theorem hasDouble_shortSide {c : Canvas} (h : c.hasCenter = true) : c.shortSide.hasDouble = true := by
  rw [hasCenter, Bool.and_eq_true] at h
  rw [shortSide, Quantity.smaller]
  split_ifs
  · exact h.2
  · exact h.1

section HasDoubles

variable {c : Canvas} (hc : c.HasDoubles)
include hc

theorem HasDoubles.shortSide : c.shortSide.IsReal := hc.width.smaller hc.height

theorem HasDoubles.exists_extentOf (text : List Char) :
    ∃ e, c.extentOf text = .ok e ∧ e.IsReal := by
  obtain ⟨font, hfont⟩ := hc.fontSize
  obtain ⟨glyph, hglyph⟩ := hc.glyphWidthRatio
  obtain ⟨line, hline⟩ := hc.lineHeightRatio
  exact ⟨_, extentOf_eq hfont hglyph hline text, ⟨_, rfl⟩, ⟨_, rfl⟩⟩

theorem HasDoubles.exists_jitterRange : ∃ range, c.jitterRange = .ok range := by
  obtain ⟨ratio, hratio⟩ := hc.jitterRatio
  obtain ⟨side, hside⟩ := hc.shortSide
  refine ⟨side * ratio, ?_⟩
  rw [jitterRange, jitterProduct, hratio, hside]
  rfl

theorem HasDoubles.hasCenter : c.hasCenter = true := by
  rw [Canvas.hasCenter, hc.width.hasDouble, hc.height.hasDouble]
  rfl

theorem HasDoubles.hasRoom {e : Extent} (he : e.IsReal) : c.hasRoom e = true := by
  rw [Canvas.hasRoom, hc.width.fits he.width, (hc.width.sub he.width).fits hc.margin,
    hc.height.fits he.height, (hc.height.sub he.height).fits hc.margin]
  rfl

theorem HasDoubles.canCompare {e : Extent} (he : e.IsReal) (occupied : List Box) :
    c.canCompare e occupied = true := by
  rw [Canvas.canCompare, he.hasDoubles, hc.margin.hasDouble, hc.minSpacing.hasDouble, Bool.or_true]
  rfl

theorem HasDoubles.canStart {occupied : List Box} (hboxes : occupied.all Box.hasDoubles = true) :
    c.CanStart occupied :=
  ⟨hboxes, (hc.width.smaller hc.height).hasDouble⟩

theorem HasDoubles.isReal_pulledInside {e : Extent} {p : Position} (he : e.IsReal)
    (hp : p.IsReal) : (c.pulledInside e p).IsReal where
  x := hc.margin.larger (hp.x.smaller ((hc.width.sub he.width).sub hc.margin))
  y := hc.margin.larger (hp.y.smaller ((hc.height.sub he.height).sub hc.margin))

end HasDoubles

/-! ## One step -/

variable {c : Canvas} {directions : Except Failure (List (Binary64 × Binary64))} {e : Extent}
  {occupied : List Box} {g : Generator} {s : Segment} {segments : List Segment} {place : Position}

theorem Chooses.isReal {advice : List Diagnostic} {g' : Generator}
    (h : c.Chooses directions occupied g s e place advice g') : place.IsReal := by
  obtain ⟨x, y, rfl⟩ := h.exists_eq
  exact ⟨⟨_, rfl⟩, ⟨_, rfl⟩⟩

/-- The search for a place ends: there is no ring to be searched, or the places
on a ring are known and the rings come to an end or one of them has a free
place. -/
def SearchEnds (c : Canvas) (directions : Except Failure (List (Binary64 × Binary64)))
    (e : Extent) (occupied : List Box) : Prop :=
  0 < c.shortSide.half → ∃ rings, directions = .ok rings ∧ c.search rings e occupied ≠ .endless

/-- Every search ends where no radius stalls. -/
theorem searchEnds_of_not_stallsAt (hstall : ∀ r, ¬c.StallsAt r)
    (rings : List (Binary64 × Binary64)) (e : Extent) (occupied : List Box) :
    c.SearchEnds (.ok rings) e occupied := by
  intro _
  exact ⟨rings, rfl, search_ne_endless hstall⟩

/-- Among doubles nothing is too large for a search, so that it has a free place,
has none, or is endless. -/
theorem HasDoubles.freePlace?_eq (hc : c.HasDoubles) (he : e.IsReal)
    (hboxes : occupied.all Box.hasDoubles = true)
    (directions : Except Failure (List (Binary64 × Binary64))) :
    c.freePlace? directions e occupied = if 0 < c.shortSide.half then
        directions >>= fun rings => match c.search rings e occupied with
          | .found place => .ok (some place)
          | .full => .ok none
          | .endless => .error .endlessSearch
      else .ok none := by
  simp only [freePlace?, hboxes, (hc.canStart hboxes).shortSide, hc.hasCenter, hc.canCompare he,
    hc.ringStep.hasDouble, Bool.and_self, Bool.not_true, Bool.false_eq_true, if_false, if_true]
  rfl

/-- A search that ends has a result, which may be that no place is free. -/
theorem HasDoubles.exists_freePlace? (hc : c.HasDoubles) (he : e.IsReal)
    (hboxes : occupied.all Box.hasDoubles = true) (h : c.SearchEnds directions e occupied) :
    ∃ found, c.freePlace? directions e occupied = .ok found := by
  rw [hc.freePlace?_eq he hboxes]
  split_ifs with hlimit
  · obtain ⟨rings, rfl, hends⟩ := h hlimit
    simp only [bind, Except.bind]
    cases hsearch : c.search rings e occupied with
    | found place => exact ⟨some place, rfl⟩
    | full => exact ⟨none, rfl⟩
    | endless => exact absurd hsearch hends
  · exact ⟨none, rfl⟩

/-- A search without an end is endless, or the places on a ring are not known. -/
theorem HasDoubles.freePlace?_of_not_searchEnds (hc : c.HasDoubles) (he : e.IsReal)
    (hboxes : occupied.all Box.hasDoubles = true) (h : ¬c.SearchEnds directions e occupied) :
    c.freePlace? directions e occupied = .error .endlessSearch ∨
      ∃ f, directions = .error f ∧ c.freePlace? directions e occupied = .error f := by
  unfold SearchEnds at h
  push Not at h
  obtain ⟨hlimit, hendless⟩ := h
  rw [hc.freePlace?_eq he hboxes, if_pos hlimit]
  cases directions with
  | ok rings =>
    left
    simp only [bind, Except.bind, hendless rings rfl]
  | error f => exact .inr ⟨f, rfl, rfl⟩

/-- A place is chosen for a tagged segment, and for another one if the search
for it ends. -/
theorem HasDoubles.exists_chooses (hc : c.HasDoubles) (he : e.IsReal)
    (hboxes : occupied.all Box.hasDoubles = true)
    (hsearch : s.isTagged = false → c.SearchEnds directions e occupied) :
    ∃ place advice g', c.Chooses directions occupied g s e place advice g' := by
  cases hs : s.isTagged with
  | true =>
    obtain ⟨range, hrange⟩ := hc.exists_jitterRange
    exact ⟨_, _, _, .tagged hs hc.hasCenter hrange he.hasDoubles⟩
  | false =>
    obtain ⟨found, hfound⟩ := hc.exists_freePlace? he hboxes (hsearch hs)
    cases found with
    | some place => exact ⟨_, _, _, .free hs hfound⟩
    | none => exact ⟨_, _, _, .middle hs hfound hc.hasCenter he.hasDoubles⟩

theorem HasDoubles.exists_places (hc : c.HasDoubles)
    (hboxes : occupied.all Box.hasDoubles = true)
    (hsearch : ∀ e, c.extentOf s.text = .ok e → s.isTagged = false →
      c.SearchEnds directions e occupied) :
    ∃ r, c.Places directions occupied g s r := by
  obtain ⟨e, hextent, he⟩ := hc.exists_extentOf s.text
  obtain ⟨place, advice, g', hchoose⟩ :=
    hc.exists_chooses (g := g) he hboxes (hsearch e hextent)
  obtain ⟨box, hbox⟩ :=
    Box.exists_of (hc.isReal_pulledInside he hchoose.isReal) he hc.minSpacing
  exact ⟨_, hextent, hchoose, hc.hasRoom he, hbox⟩

/-- A box that is placed on a canvas of doubles has doubles for its sides. -/
theorem HasDoubles.hasDoubles_box (hc : c.HasDoubles) {r : Placing}
    (h : c.Places directions occupied g s r) : r.box.hasDoubles = true := by
  obtain ⟨hextent, hchoose, -, hbox⟩ := h
  obtain ⟨e', hextent', he⟩ := hc.exists_extentOf s.text
  obtain rfl := Except.ok.inj (hextent'.symm.trans hextent)
  exact Box.hasDoubles_of (hc.isReal_pulledInside he hchoose.isReal) he hc.minSpacing hbox

/-! ## Layouts -/

/-- Wherever a run comes to a segment without a tag, the search for its place
ends. -/
def SearchesEndFrom (c : Canvas) (directions : Except Failure (List (Binary64 × Binary64)))
    (occupied : List Box) (g : Generator) (segments : List Segment) : Prop :=
  ∀ front s back rs e, segments = front ++ s :: back → c.Run directions occupied g front rs →
    c.extentOf s.text = .ok e → s.isTagged = false →
      c.SearchEnds directions e (boxesAfter occupied rs)

theorem SearchesEndFrom.tail {rest : List Segment} {r : Placing}
    (h : c.SearchesEndFrom directions occupied g (s :: rest))
    (hstep : c.Places directions occupied g s r) :
    c.SearchesEndFrom directions (r.box :: occupied) r.generator rest := by
  intro front t back rs e hrest hrun hextent htag
  have hend := h (s :: front) t back (r :: rs) e (by rw [hrest, List.cons_append])
    (.cons hstep hrun) hextent htag
  simpa [boxesAfter] using hend

theorem SearchesEndFrom.exists_run (h : c.SearchesEndFrom directions occupied g segments)
    (hc : c.HasDoubles) (hboxes : occupied.all Box.hasDoubles = true) :
    ∃ rs, c.Run directions occupied g segments rs := by
  induction segments generalizing occupied g with
  | nil => exact ⟨[], .nil ..⟩
  | cons s rest ih =>
    obtain ⟨r, hstep⟩ := hc.exists_places (g := g) hboxes fun e hextent htag =>
      h [] s rest [] e rfl (.nil ..) hextent htag
    have hboxes' : (r.box :: occupied).all Box.hasDoubles = true := by
      rw [List.all_cons, hc.hasDoubles_box hstep, hboxes, Bool.and_true]
    obtain ⟨rs, hrun⟩ := ih (h.tail hstep) hboxes'
    exact ⟨r :: rs, .cons hstep hrun⟩

/-- No place can be chosen where the search for one fails. -/
theorem fails_place (hextent : c.extentOf s.text = .ok e) (hs : s.isTagged = false) {f : Failure}
    (h : c.freePlace? directions e occupied = .error f) (engine : Engine) :
    Fails (c.place directions occupied s) engine f := by
  refine .of_ok (run_lift_eq_ok_iff.2 ⟨hextent, rfl⟩) (Fails.bind ?_ _)
  unfold choosePlace
  rw [hs, if_neg Bool.false_ne_true]
  exact (fails_lift h engine).bind _

/-- Nothing keeps a row among doubles from a result but an endless search, and
places on a ring that are not known. -/
theorem HasDoubles.run_placeAll_or (hc : c.HasDoubles)
    (directions : Except Failure (List (Binary64 × Binary64))) (occupied : List Box)
    (hboxes : occupied.all Box.hasDoubles = true) (engine : Engine) (segments : List Segment) :
    (∃ placed engine', (c.placeAll directions occupied segments).run engine = .ok placed engine') ∨
      Fails (c.placeAll directions occupied segments) engine .endlessSearch ∨
        ∃ f, directions = .error f ∧
          Fails (c.placeAll directions occupied segments) engine f := by
  induction segments generalizing occupied engine with
  | nil => exact .inl ⟨_, _, rfl⟩
  | cons s segments ih =>
    obtain ⟨e, hextent, he⟩ := hc.exists_extentOf s.text
    by_cases hsearch : s.isTagged = false → c.SearchEnds directions e occupied
    · obtain ⟨r, hplaces⟩ := hc.exists_places (g := engine.generator) (s := s) hboxes
        fun e' he' => by
          cases hextent.symm.trans he'
          exact hsearch
      have hstep := run_place_eq_ok_iff.2 ⟨r, hplaces, rfl, rfl⟩
      have hboxes' : (r.box :: occupied).all Box.hasDoubles = true := by
        rw [List.all_cons, hc.hasDoubles_box hplaces, hboxes, Bool.and_true]
      rcases ih (r.box :: occupied) hboxes' ⟨r.generator, engine.diagnostics ++ r.advice⟩ with
        ⟨placed, engine', hothers⟩ | hendless | ⟨f, hf, herror⟩
      · exact .inl ⟨_, _, run_bind_eq_ok_iff.2 ⟨_, _, hstep, run_bind_eq_ok_iff.2
          ⟨placed, engine', hothers, rfl⟩⟩⟩
      · exact .inr (.inl (.of_ok hstep (hendless.bind _)))
      · exact .inr (.inr ⟨f, hf, .of_ok hstep (herror.bind _)⟩)
    · push Not at hsearch
      obtain ⟨hs, hnot⟩ := hsearch
      rcases hc.freePlace?_of_not_searchEnds he hboxes hnot with hendless | ⟨f, hf, herror⟩
      · exact .inr (.inl ((fails_place hextent hs hendless engine).bind _))
      · exact .inr (.inr ⟨f, hf, (fails_place hextent hs herror engine).bind _⟩)

section Layout

variable [Trigonometry]

/-- The searches that the layout of segments makes come to an end. -/
def SearchesEnd (c : Canvas) (g : Generator) (segments : List Segment) : Prop :=
  c.SearchesEndFrom (c.searchDirections segments) [] g segments

/-- A layout has a result if its searches end. -/
theorem HasDoubles.settles_of_searchesEnd (hc : c.HasDoubles) (h : c.SearchesEnd g segments) :
    c.Settles g segments := by
  obtain ⟨rs, hrun⟩ := h.exists_run hc rfl
  exact ⟨_, layout_eq_ok_iff.2 ⟨rs, hrun, rfl⟩⟩

theorem layout_eq_error_of_fails {f : Failure} (h : Fails (Engine.layout c segments) ⟨g, []⟩ f) :
    c.layout g segments = .error f := by
  obtain ⟨engine, hengine⟩ := h
  unfold layout
  rw [Engine.run_fresh, hengine]

/-! ## The end of the rings -/

theorem exists_ringDirections {n : ℕ} (hsamples : c.ringSamples = .whole n) (hn : n < twoPow 60) :
    ∃ directions, ringDirections c.ringSamples = .ok directions := by
  have hcount : ringCount c.ringSamples = .ok n := by
    rw [hsamples, ringCount]
    exact if_pos hn
  rw [ringDirections, hcount]
  exact ⟨_, rfl⟩

theorem exists_searchDirections {n : ℕ} (hsamples : c.ringSamples = .whole n) (hn : n < twoPow 60)
    (segments : List Segment) : ∃ rings, c.searchDirections segments = .ok rings := by
  unfold searchDirections
  split_ifs
  · exact ⟨[], rfl⟩
  · exact exists_ringDirections hsamples hn

theorem searchDirections_eq_error {n : ℕ} {f : Failure} (hsamples : c.ringSamples = .whole n)
    (hn : ¬n < twoPow 60) (h : c.searchDirections segments = .error f) : f = .ringCount := by
  have hcount : ringCount c.ringSamples = .error .ringCount := by
    rw [hsamples]
    exact if_neg hn
  unfold searchDirections at h
  split_ifs at h
  rw [ringDirections, hcount] at h
  cases h
  rfl

theorem searchesEnd_of_not_stallsAt {n : ℕ} (hsamples : c.ringSamples = .whole n)
    (hn : n < twoPow 60) (hstall : ∀ r, ¬c.StallsAt r) (g : Generator) (segments : List Segment) :
    c.SearchesEnd g segments := by
  intro front s back rs e _ _ _ _
  obtain ⟨rings, hrings⟩ := exists_searchDirections hsamples hn segments
  rw [hrings]
  exact searchEnds_of_not_stallsAt hstall rings e _

/-- A radius that stalls lets a layout run without end if the first text fits
nowhere. -/
theorem FitsNowhere.layout_eq_error (hfits : c.FitsNowhere e) {r : Binary64} (hr : c.StallsAt r)
    {n : ℕ} (hsamples : c.ringSamples = .whole n) (hn : n < twoPow 60)
    (hs : s.isTagged = false) (hextent : c.extentOf s.text = .ok e) (hcenter : c.hasCenter = true)
    (hcompare : c.canCompare e [] = true) :
    c.layout g (s :: segments) = .error .endlessSearch := by
  obtain ⟨rings, hrings⟩ := exists_searchDirections hsamples hn (s :: segments)
  have hlimit : 0 < c.shortSide.half := by
    obtain ⟨hzero, -, hle⟩ := Binary64.le_iff_key.1 hr.nonneg
    obtain ⟨-, hnan, hlt⟩ := Binary64.lt_iff_key.1 hr.below
    exact Binary64.lt_iff_key.2 ⟨hzero, hnan, hle.trans_lt hlt⟩
  have hsearch : c.freePlace? (c.searchDirections (s :: segments)) e [] =
      .error .endlessSearch := by
    rw [hrings]
    simp only [freePlace?, List.all_nil, Bool.true_and, hasDouble_shortSide hcenter, hlimit,
      hcenter, hcompare, hfits.search_eq_endless hr, Bool.not_true, Bool.false_eq_true, if_false,
      if_true]
    rfl
  exact layout_eq_error_of_fails ((fails_place hextent hs hsearch _).bind _)

/-- With a whole number of places on each ring, nothing keeps a layout among
doubles from a result but an endless search and `2 ^ 60` places or more. -/
theorem HasDoubles.settles_or (hc : c.HasDoubles) {n : ℕ} (hsamples : c.ringSamples = .whole n)
    (g : Generator) (segments : List Segment) :
    c.Settles g segments ∨ c.layout g segments = .error .endlessSearch ∨
      twoPow 60 ≤ n ∧ c.layout g segments = .error .ringCount := by
  rcases hc.run_placeAll_or (c.searchDirections segments) [] rfl ⟨g, []⟩ segments with
    ⟨placed, engine, hok⟩ | hendless | ⟨f, hf, herror⟩
  · exact .inl ⟨⟨placed, engine.diagnostics, engine.generator⟩, layout_eq_ok_iff_run.2 hok⟩
  · exact .inr (.inl (layout_eq_error_of_fails hendless))
  · right
    right
    by_cases hn : n < twoPow 60
    · obtain ⟨rings, hrings⟩ := exists_searchDirections hsamples hn segments
      rw [hrings] at hf
      cases hf
    · refine ⟨not_lt.1 hn, ?_⟩
      rw [← searchDirections_eq_error hsamples hn hf]
      exact layout_eq_error_of_fails herror

end Layout

theorem hasDoubles_smallCanvas : smallCanvas.HasDoubles where
  width := ⟨_, rfl⟩
  height := ⟨_, rfl⟩
  margin := ⟨_, rfl⟩
  minSpacing := ⟨_, rfl⟩
  ringStep := ⟨_, rfl⟩
  fontSize := ⟨_, rfl⟩
  glyphWidthRatio := ⟨_, rfl⟩
  lineHeightRatio := ⟨_, rfl⟩
  jitterRatio := ⟨_, rfl⟩

/-- The limit of five is two steps of four away. -/
theorem half_smallCanvas_le : smallCanvas.shortSide.half.value ≤
    2 ^ 53 * smallCanvas.ringStep.toBinary64.value := by
  have hunits : smallCanvas.shortSide.half.units ≤
      2 ^ 53 * smallCanvas.ringStep.toBinary64.units := by
    decide +kernel
  rw [Binary64.value, Binary64.value, ← mul_div_assoc]
  exact div_le_div_of_nonneg_right (by exact_mod_cast hunits) (by positivity)

/-- A line that is wider than a canvas of usual size. -/
def longLine : Segment where
  text := "this text is so long that it can never be put inside the margins of the canvas".toList
  index := 0

section Stalls

variable [Trigonometry]

theorem searchesEnd_smallCanvas (g : Generator) (segments : List Segment) :
    smallCanvas.SearchesEnd g segments := by
  apply searchesEnd_of_not_stallsAt (n := 1) rfl (by decide +kernel)
  intro r
  exact not_stallsAt_of_le (by decide +kernel) (by decide +kernel) half_smallCanvas_le

/-- On a canvas of usual size a step of `10 ^ -20` leaves a radius of one as it
is. -/
theorem layout_fineStep :
    ∃ c, ofSize (.int 800) (.int 600) [("spiral_step", .real 1e-20)] = .ok c ∧
      ∀ g, c.layout g [longLine] = .error .endlessSearch := by
  have hcanvas : (ofSize (.int 800) (.int 600) [("spiral_step", .real 1e-20)]).map
        (fun c => ([c.width, c.height, c.margin, c.ringStep, c.ringSamples],
          (c.extentOf longLine.text).toOption)) =
      .ok ([.real 800, .real 600, .real 30, .real 1e-20, .whole 8],
        some ⟨.real 1497.6, .real 38.4⟩) := by
    decide +kernel
  obtain ⟨c, hc, hfields⟩ := map_eq_ok_iff.1 hcanvas
  simp only [Prod.mk.injEq, List.cons.injEq, and_true, toOption_eq_some_iff] at hfields
  obtain ⟨⟨hwidth, hheight, hmargin, hstep, hsamples⟩, hextent⟩ := hfields
  have hfits : c.FitsNowhere ⟨.real 1497.6, .real 38.4⟩ :=
    fitsNowhere_of_lt hwidth hmargin rfl (by decide +kernel) (by decide +kernel) (by decide +kernel)
  have hstalls : c.StallsAt 1 := by
    constructor
    · decide +kernel
    · rw [shortSide, hwidth, hheight]
      decide +kernel
    · rw [hstep]
      decide +kernel
  refine ⟨c, hc, ?_⟩
  intro g
  refine hfits.layout_eq_error hstalls hsamples (by decide +kernel) rfl hextent ?_ ?_
  · rw [hasCenter, hwidth, hheight]
    rfl
  · rw [canCompare, hmargin]
    rfl

/-- On a canvas without an end a step of usual size leaves a radius of `2 ^ 60`
as it is. -/
theorem layout_boundless :
    ∃ c, ofSize (.real (.infinity false)) (.real (.infinity false)) [] = .ok c ∧
      ∀ g, c.layout g [{ text := ['a'], index := 0 }] = .error .endlessSearch := by
  have hcanvas : (ofSize (.real (.infinity false)) (.real (.infinity false)) []).map
        (fun c => ([c.width, c.height, c.margin, c.ringStep, c.ringSamples],
          (c.extentOf ['a']).toOption)) =
      .ok ([.real (.infinity false), .real (.infinity false), .real (.infinity false), .real 20,
        .whole 8], some ⟨.real 19.2, .real 38.4⟩) := by
    decide +kernel
  obtain ⟨c, hc, hfields⟩ := map_eq_ok_iff.1 hcanvas
  simp only [Prod.mk.injEq, List.cons.injEq, and_true, toOption_eq_some_iff] at hfields
  obtain ⟨⟨hwidth, hheight, hmargin, hstep, hsamples⟩, hextent⟩ := hfields
  have hfits : c.FitsNowhere ⟨.real 19.2, .real 38.4⟩ :=
    fitsNowhere_of_isNaN hwidth hmargin (by decide +kernel)
  have hstalls : c.StallsAt (.ofInt (2 ^ 60)) := by
    constructor
    · decide +kernel
    · rw [shortSide, hwidth, hheight]
      decide +kernel
    · rw [hstep]
      decide +kernel
  refine ⟨c, hc, ?_⟩
  intro g
  refine hfits.layout_eq_error hstalls hsamples (by decide +kernel) rfl hextent ?_ ?_
  · rw [hasCenter, hwidth, hheight]
    rfl
  · rw [canCompare, hmargin]
    rfl

/-- The rings of a search come to an end exactly where no radius below the limit
stays the same when a step is added, and none does within `2 ^ 53` steps.  Then
every search ends, and so does every layout among doubles; else a text that
fits nowhere is searched a place for without end. -/
theorem layout_settles (c : Canvas) :
    ((∃ n, ¬c.radiusAt n < c.shortSide.half) ↔ ∀ r, ¬c.StallsAt r) ∧
      (c.shortSide.half.isFinite = true → c.ringStep.toBinary64.isFinite = true →
        c.shortSide.half.value ≤ 2 ^ 53 * c.ringStep.toBinary64.value → ∀ r, ¬c.StallsAt r) ∧
      (∀ directions e occupied, c.search directions e occupied = .endless ↔
        ∀ n, c.radiusAt n < c.shortSide.half ∧
          c.freeOnRing? directions e (occupied.map Box.rounded) (c.radiusAt n) = none) ∧
      ((∀ r, ¬c.StallsAt r) → c.HasDoubles → ∀ n : ℕ, c.ringSamples = .whole n → n < twoPow 60 →
        ∀ g segments, c.Settles g segments) ∧
      ((∃ r, c.StallsAt r) → ∀ directions e occupied, c.FitsNowhere e →
        c.search directions e occupied = .endless) := by
  refine ⟨exists_not_radiusAt_lt_iff, ?_, ?_, ?_, ?_⟩
  · intro hlimit hstep hle r
    exact not_stallsAt_of_le hlimit hstep hle
  · intro directions e occupied
    exact search_eq_endless_iff
  · intro hstall hc n hsamples hn g segments
    exact hc.settles_of_searchesEnd (searchesEnd_of_not_stallsAt hsamples hn hstall g segments)
  · intro hstall directions e occupied hfits
    obtain ⟨r, hr⟩ := hstall
    exact hfits.search_eq_endless hr

end Stalls

/-- A line that fits nowhere on the small canvas is placed all the same. -/
theorem layout_settles_line :
    smallCanvas.shortSide.half.isFinite = true ∧
      smallCanvas.ringStep.toBinary64.isFinite = true ∧
      smallCanvas.shortSide.half.value ≤ 2 ^ 53 * smallCanvas.ringStep.toBinary64.value ∧
      smallCanvas.HasDoubles ∧ smallCanvas.ringSamples = .whole 1 ∧ 1 < twoPow 60 ∧
      (∃ n, ¬smallCanvas.radiusAt n < smallCanvas.shortSide.half) ∧
      smallCanvas.Settles ⟨#[], 0⟩ [longLine] := by
  have hhalf : smallCanvas.shortSide.half.isFinite = true := by decide +kernel
  have hstep : smallCanvas.ringStep.toBinary64.isFinite = true := by decide +kernel
  have hsamples : smallCanvas.ringSamples = .whole 1 := rfl
  have hcount : 1 < twoPow 60 := by decide +kernel
  obtain ⟨hends, hwithin, -, hsettles, -⟩ := layout_settles smallCanvas
  have hstall := hwithin hhalf hstep half_smallCanvas_le
  exact ⟨hhalf, hstep, half_smallCanvas_le, hasDoubles_smallCanvas, hsamples, hcount, hends.2 hstall,
    hsettles hstall hasDoubles_smallCanvas 1 hsamples hcount _ _⟩

/-- Canvases that are accepted, and texts whose layout has no result: two
searches go on without end, and in the third a step that is beyond all doubles
cannot be added. -/
theorem layout_endless :
    (∃ c, ofSize (.int 800) (.int 600) [("spiral_step", .real 1e-20)] = .ok c ∧
      ∀ g, c.layout g [longLine] = .error .endlessSearch) ∧
    (∃ c, ofSize (.real (.infinity false)) (.real (.infinity false)) [] = .ok c ∧
      ∀ g, c.layout g [{ text := ['a'], index := 0 }] = .error .endlessSearch) ∧
    ∃ c, ofSize (.int 800) (.int 600) [("spiral_step", .int (10 ^ 400))] = .ok c ∧
      ¬c.Settles ⟨#[], 0⟩ [longLine] := by
  refine ⟨layout_fineStep, layout_boundless, ?_⟩
  have hsettles : (ofSize (.int 800) (.int 600) [("spiral_step", .int (10 ^ 400))]).map
      (fun c => decide (c.Settles ⟨#[], 0⟩ [longLine])) = .ok false := by
    decide +kernel
  obtain ⟨c, hc, hnot⟩ := map_eq_ok_iff.1 hsettles
  exact ⟨c, hc, of_decide_eq_false hnot⟩

end Canvas

end KineticText
