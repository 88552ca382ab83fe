import KineticText.Proofs.Canvas.Settling
import KineticText.Proofs.Number.Clamp
import KineticText.Proofs.Number.Line

/-!
# Positions on a finite canvas

On a canvas with finite sides and a finite margin, where no font makes a text
smaller than nothing, every text is put at a finite position
(`Canvas.position_isFinite`).  Whatever place is chosen, even one that is
infinite or undefined, it is pulled inside the margins; a place is undefined
where the size of its text is, and then it goes to the margin.
-/

namespace KineticText

/-- A position whose coordinates are finite doubles. -/
structure Position.IsFinite (p : Position) : Prop where
  x : ∃ x, p.x = .real x ∧ x.isFinite = true
  y : ∃ y, p.y = .real y ∧ y.isFinite = true

namespace Canvas

/-- No font has a negative size, and no ratio of its glyphs is negative. -/
structure FontsNonneg (c : Canvas) : Prop where
  fontSize : ∃ x, c.fontSize = .real x ∧ ¬x < 0
  glyphWidthRatio : ∃ x, c.glyphWidthRatio = .real x ∧ ¬x < 0
  lineHeightRatio : ∃ x, c.lineHeightRatio = .real x ∧ ¬x < 0

/-- The sides and the margin of the canvas are finite doubles. -/
structure HasFiniteSides (c : Canvas) : Prop where
  width : ∃ x, c.width = .real x ∧ x.isFinite = true
  height : ∃ x, c.height = .real x ∧ x.isFinite = true
  margin : ∃ x, c.margin = .real x ∧ x.isFinite = true

variable {c : Canvas} {directions : Except Failure (List (Binary64 × Binary64))}
  {occupied : List Box} {g g' : Generator} {s : Segment} {segments : List Segment} {e : Extent}
  {place : Position} {advice : List Diagnostic} {r : Placing} {rs : List Placing}

/-! ## One text -/

theorem isNaN_sub_half {x size : Binary64} (h : size.isNaN = true) :
    (x - (Quantity.real size).half).isNaN = true := by
  cases size with
  | nan => cases x <;> rfl
  | finite | infinity => cases h

/-- A chosen place that is pulled inside finite margins is finite, if the text is
not smaller than nothing. -/
theorem HasFiniteSides.isFinite_pulledInside (hc : c.HasFiniteSides) {width height : Binary64}
    (he : e = ⟨.real width, .real height⟩) (hwidth : ¬width < 0) (hheight : ¬height < 0)
    (h : c.Chooses directions occupied g s e place advice g') :
    (c.pulledInside e place).IsFinite := by
  obtain ⟨x, y, rfl⟩ := h.exists_eq
  obtain ⟨canvasWidth, hcanvasWidth, hwidthFinite⟩ := hc.width
  obtain ⟨canvasHeight, hcanvasHeight, hheightFinite⟩ := hc.height
  obtain ⟨margin, hmargin, hmarginFinite⟩ := hc.margin
  have hnonneg : 0 ≤ margin := by
    refine Binary64.le_of_not_lt (Binary64.isNaN_of_isFinite hmarginFinite) Binary64.isNaN_zero ?_
    rw [← Quantity.real_lt_zero_iff, ← hmargin]
    exact c.margin_nonneg
  subst he
  rw [pulledInside, hcanvasWidth, hcanvasHeight, hmargin]
  simp only [Quantity.real_sub_real, Quantity.real_smaller_real, Quantity.real_larger_real]
  exact ⟨⟨_, rfl, Binary64.isFinite_larger_smaller hmarginFinite hnonneg hwidthFinite hwidth
      isNaN_sub_half⟩,
    ⟨_, rfl, Binary64.isFinite_larger_smaller hmarginFinite hnonneg hheightFinite hheight
      isNaN_sub_half⟩⟩

theorem Places.position_isFinite (h : c.Places directions occupied g s r)
    (hc : c.HasFiniteSides) (hfonts : c.FontsNonneg) : r.segment.position.IsFinite := by
  obtain ⟨hextent, hchoose, -, -⟩ := h
  obtain ⟨font, hfont, hfontNonneg⟩ := hfonts.fontSize
  obtain ⟨glyph, hglyph, hglyphNonneg⟩ := hfonts.glyphWidthRatio
  obtain ⟨line, hline, hlineNonneg⟩ := hfonts.lineHeightRatio
  rw [extentOf_eq hfont hglyph hline] at hextent
  have hcount := Binary64.not_ofNat_lt_zero s.text.length
  refine hc.isFinite_pulledInside (Except.ok.inj hextent).symm ?_ ?_ hchoose
  · exact Binary64.not_mul_lt_zero (Binary64.not_mul_lt_zero hcount hfontNonneg) hglyphNonneg
  · exact Binary64.not_mul_lt_zero hfontNonneg hlineNonneg

/-! ## All texts -/

theorem Run.position_isFinite (h : c.Run directions occupied g segments rs)
    (hc : c.HasFiniteSides) (hfonts : c.FontsNonneg) :
    ∀ r ∈ rs, r.segment.position.IsFinite := by
  induction h with
  | nil => simp
  | cons hstep _ ih =>
    exact List.forall_mem_cons.2 ⟨hstep.position_isFinite hc hfonts, ih⟩

theorem position_isFinite [Trigonometry] {l : Layout} (h : c.layout g segments = .ok l)
    (hc : c.HasFiniteSides) (hfonts : c.FontsNonneg) :
    ∀ s ∈ l.segments, s.position.IsFinite := by
  obtain ⟨rs, hrun, rfl⟩ := layout_eq_ok_iff.1 h
  exact List.forall_mem_map.2 (hrun.position_isFinite hc hfonts)

end Canvas

end KineticText
