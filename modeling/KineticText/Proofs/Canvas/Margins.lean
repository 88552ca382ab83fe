import KineticText.Proofs.Canvas.Overlap
import KineticText.Proofs.Canvas.Position

/-!
# Positions inside the margins

Whichever way a place is chosen, the position of a text is not in front of the
left and the upper margin, and not behind the last position at which the text
still ends in front of the other margin (`HasFiniteSides.keepsMargins`).  A text
that is too large goes to the left and the upper margin.

A free place has been checked with the sum of position and size, and is pulled
inside with a difference of sides.  These round differently, so the text may be
moved; but it moves towards the margin only, and a smaller sum stays inside
(`HasFiniteSides.fitsInside`).

There are three groups: what positions keep, one text, and all texts.
-/

namespace KineticText

/-! ## What positions keep -/

/-- A text of finite size, which may be less than nothing. -/
structure Extent.IsFinite (e : Extent) : Prop where
  width : ∃ x, e.width = .real x ∧ x.isFinite = true
  height : ∃ x, e.height = .real x ∧ x.isFinite = true

namespace Canvas

/-- The position is between the margins, or at the left and the upper one where a
text is too large. -/
structure KeepsMargins (c : Canvas) (e : Extent) (p : Position) : Prop where
  left : c.margin ≤ p.x
  right : p.x ≤ c.margin.larger (c.width - e.width - c.margin)
  top : c.margin ≤ p.y
  bottom : p.y ≤ c.margin.larger (c.height - e.height - c.margin)

/-- The text ends in front of the right and the lower margin. -/
structure FitsInside (c : Canvas) (e : Extent) (p : Position) : Prop where
  right : p.x + e.width ≤ c.width - c.margin
  bottom : p.y + e.height ≤ c.height - c.margin

variable {c : Canvas} {directions : Except Failure (List (Binary64 × Binary64))}
  {occupied : List Box} {g : Generator} {s : Segment} {segments : List Segment} {e : Extent}
  {place : Position} {r : Placing} {rs : List Placing}

/-! ## One text -/

section Side

variable {margin side extent x : Quantity} (hmargin : ∃ m, margin = .real m ∧ m.isFinite = true)
  (hside : ∃ l, side = .real l ∧ l.isFinite = true)
  (hextent : ∃ w, extent = .real w ∧ w.isFinite = true) (hx : x.IsReal)
include hmargin hside hextent hx

/-- A coordinate pulled between the margins of a side. -/
theorem pulled_between :
    margin ≤ margin.larger (x.smaller (side - extent - margin)) ∧
      margin.larger (x.smaller (side - extent - margin)) ≤
        margin.larger (side - extent - margin) := by
  obtain ⟨m, rfl, hm⟩ := hmargin
  obtain ⟨l, rfl, hl⟩ := hside
  obtain ⟨w, rfl, hw⟩ := hextent
  obtain ⟨x, rfl⟩ := hx
  have hnan := Binary64.isNaN_of_isFinite hm
  have hroom : (l - w - m).isNaN = false :=
    Binary64.isNaN_sub (Binary64.isNaN_sub (Binary64.isNaN_of_isFinite hl) hw) hm
  simp only [Quantity.real_sub_real, Quantity.real_smaller_real, Quantity.real_larger_real,
    Quantity.real_le_real]
  exact ⟨Binary64.le_larger hnan _, Binary64.larger_smaller_le_larger hnan hroom x⟩

/-- A coordinate at which the text was inside is moved only towards the first
margin. -/
theorem pulled_add_le (hnonneg : ¬margin < 0) (hfirst : margin.rounded ≤ x)
    (hlast : x + extent ≤ (side - margin).rounded) :
    margin.larger (x.smaller (side - extent - margin)) + extent ≤ side - margin := by
  obtain ⟨m, rfl, hm⟩ := hmargin
  obtain ⟨l, rfl, hl⟩ := hside
  obtain ⟨w, rfl, hw⟩ := hextent
  obtain ⟨x, rfl⟩ := hx
  rw [Quantity.real_lt_zero_iff] at hnonneg
  have hzero := Binary64.le_of_not_lt (Binary64.isNaN_of_isFinite hm) Binary64.isNaN_zero hnonneg
  have hbound := Binary64.sub_lt_infinity (Binary64.lt_infinity hl) hzero
  simp only [Quantity.rounded, Quantity.toBinary64, Quantity.real_sub_real,
    Quantity.real_add_real, Quantity.real_smaller_real, Quantity.real_larger_real,
    Quantity.real_le_real] at hfirst hlast ⊢
  exact Binary64.larger_smaller_add_le hm hw hbound hfirst hlast

end Side

section Text

variable (hc : c.HasFiniteSides) (he : e.IsFinite) (hplace : place.IsReal)
include hc he hplace

theorem HasFiniteSides.keepsMargins : c.KeepsMargins e (c.pulledInside e place) := by
  obtain ⟨hleft, hright⟩ := pulled_between hc.margin hc.width he.width hplace.x
  obtain ⟨htop, hbottom⟩ := pulled_between hc.margin hc.height he.height hplace.y
  exact ⟨hleft, hright, htop, hbottom⟩

theorem HasFiniteSides.fitsInside (h : c.insideMargins e place = true) :
    c.FitsInside e (c.pulledInside e place) := by
  simp only [insideMargins, Bool.and_eq_true, decide_eq_true_eq] at h
  obtain ⟨⟨⟨hleft, htop⟩, hright⟩, hbottom⟩ := h
  constructor
  · exact pulled_add_le hc.margin hc.width he.width hplace.x c.margin_nonneg hleft hright
  · exact pulled_add_le hc.margin hc.height he.height hplace.y c.margin_nonneg htop hbottom

end Text

/-- A step puts its segment between the margins.  Without a tag and without
advice about it, the text also ends in front of them. -/
def StaysInside (c : Canvas) (s : Segment) (r : Placing) : Prop :=
  ∃ e, c.extentOf s.text = .ok e ∧ c.KeepsMargins e r.segment.position ∧
    (s.isTagged = false → r.advice = [] → c.FitsInside e r.segment.position)

theorem Places.staysInside (h : c.Places directions occupied g s r) (hc : c.HasFiniteSides)
    (hsize : ∃ e, c.extentOf s.text = .ok e ∧ e.IsFinite) : c.StaysInside s r := by
  obtain ⟨e, hextent, he⟩ := hsize
  obtain ⟨hextent', hchoose, -, -⟩ := h
  obtain rfl := Except.ok.inj (hextent.symm.trans hextent')
  have hplace := hchoose.isReal
  refine ⟨e, hextent, hc.keepsMargins he hplace, ?_⟩
  intro htag hadvice
  obtain ⟨rings, -, hsearch⟩ := hchoose.exists_search htag hadvice
  exact hc.fitsInside he hplace (freePlace_of_search hsearch).inside

/-! ## All texts -/

theorem Run.staysInside (h : c.Run directions occupied g segments rs) (hc : c.HasFiniteSides)
    (hsizes : ∀ s ∈ segments, ∃ e, c.extentOf s.text = .ok e ∧ e.IsFinite) :
    List.Forall₂ c.StaysInside segments rs := by
  induction h with
  | nil => exact .nil
  | cons hstep _ ih =>
    obtain ⟨hsize, hrest⟩ := List.forall_mem_cons.1 hsizes
    exact .cons (hstep.staysInside hc hsize) (ih hrest)

/-- On a canvas with finite sides and a finite margin, a layout puts every text of
finite size between the margins, and every one without a tag that there is no
advice about inside them. -/
theorem layout_staysInside [Trigonometry] {c : Canvas} {g : Generator} {segments : List Segment} {l : Layout}
    (hc : c.HasFiniteSides)
    (hsizes : ∀ s ∈ segments, ∃ e, c.extentOf s.text = .ok e ∧ e.IsFinite)
    (h : c.layout g segments = .ok l) :
    ∃ rs, c.Run (c.searchDirections segments) [] g segments rs ∧ l = layoutOf g rs ∧
      List.Forall₂ c.StaysInside segments rs := by
  obtain ⟨rs, hrun, rfl⟩ := layout_eq_ok_iff.1 h
  exact ⟨rs, hrun, rfl, hrun.staysInside hc hsizes⟩

theorem hasFiniteSides_tightCanvas : tightCanvas.HasFiniteSides where
  width := ⟨10, rfl, by decide +kernel⟩
  height := ⟨10, rfl, by decide +kernel⟩
  margin := ⟨2, rfl, by decide +kernel⟩

theorem extentOf_twoLetters :
    ∀ s ∈ twoLetters, tightCanvas.extentOf s.text = .ok ⟨.real 2, .real 2⟩ := by
  decide +kernel

/-- The second letter has been found one rounding step behind the place where it
is put. -/
theorem layout_staysInside_letters :
    tightCanvas.HasFiniteSides ∧
      (∀ s ∈ twoLetters, ∃ e, tightCanvas.extentOf s.text = .ok e ∧ e.IsFinite) ∧
      ∃ l, tightCanvas.layout ⟨#[], 0⟩ twoLetters = .ok l ∧ l.diagnostics = [] ∧
        l.segments.map Segment.position = [⟨.real 4, .real 4⟩, ⟨.real 6, .real 4⟩] ∧
        tightCanvas.KeepsMargins ⟨.real 2, .real 2⟩ ⟨.real 6, .real 4⟩ ∧
        tightCanvas.FitsInside ⟨.real 2, .real 2⟩ ⟨.real 6, .real 4⟩ := by
  have hsizes : ∀ s ∈ twoLetters, ∃ e, tightCanvas.extentOf s.text = .ok e ∧ e.IsFinite := by
    intro s hs
    exact ⟨_, extentOf_twoLetters s hs, ⟨2, rfl, by decide +kernel⟩, ⟨2, rfl, by decide +kernel⟩⟩
  have hlayout : (tightCanvas.layout ⟨#[], 0⟩ twoLetters).map
        (fun l => (l.diagnostics, l.segments.map Segment.position)) =
      .ok ([], [⟨.real 4, .real 4⟩, ⟨.real 6, .real 4⟩]) := by
    decide +kernel
  obtain ⟨l, hl, hboth⟩ := map_eq_ok_iff.1 hlayout
  obtain ⟨hnone, hpositions⟩ := Prod.mk.inj hboth
  obtain ⟨rs, -, rfl, hstays⟩ := layout_staysInside hasFiniteSides_tightCanvas hsizes hl
  refine ⟨hasFiniteSides_tightCanvas, hsizes, _, hl, hnone, hpositions, ?_⟩
  obtain - | ⟨-, hstays⟩ := hstays
  obtain - | ⟨⟨e, hextent, hkeeps, hfits⟩, hstays⟩ := hstays
  cases hstays
  simp only [layoutOf, List.map_cons, List.map_nil, List.cons.injEq, and_true] at hpositions
  simp only [layoutOf, List.flatMap_cons, List.flatMap_nil, List.append_nil,
    List.append_eq_nil_iff] at hnone
  obtain rfl := Except.ok.inj (hextent.symm.trans (extentOf_twoLetters _ (by simp [twoLetters])))
  rw [hpositions.2] at hkeeps hfits
  exact ⟨hkeeps, hfits rfl hnone.2⟩

end Canvas

end KineticText
