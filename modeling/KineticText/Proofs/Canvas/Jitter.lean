import KineticText.Proofs.Canvas.Draws
import KineticText.Proofs.Canvas.Margins
import KineticText.Proofs.Number.Quotient

/-!
# Texts near the middle

A tagged text is moved off the middle by a draw less a half, times the jitter
range.  A draw is at least zero and at most one (`Generator.uniform_between`), so
in exact numbers the text stays within half the range on both sides.  The doubles
stay within it as well: every operation on the way, up to the pull inside the
margins, keeps the order of its results (`Canvas.HasFiniteSides.pulledInside_mono`).
So a tagged text lies between the places that half the range before and behind the
middle lead to (`Canvas.layout_staysNear`).

There are three groups: draws, one text, and all texts.
-/

namespace KineticText

/-! ## Draws -/

namespace Generator

/-- A draw has 27 bits of one word and 26 of the next. -/
theorem numerator_lt (g : Generator) : g.numerator.1 < twoPow 53 := by
  have hhigh : (g.word.1 >>> 5).toNat < 2 ^ 27 := by
    have := g.word.1.toNat_lt
    rw [UInt32.toNat_shiftRight, Nat.shiftRight_eq_div_pow]
    exact Nat.div_lt_of_lt_mul (by simpa using this)
  have hlow : (g.word.2.word.1 >>> 6).toNat < 2 ^ 26 := by
    have := g.word.2.word.1.toNat_lt
    rw [UInt32.toNat_shiftRight, Nat.shiftRight_eq_div_pow]
    exact Nat.div_lt_of_lt_mul (by simpa using this)
  show (g.word.1 >>> 5).toNat * 2 ^ 26 + (g.word.2.word.1 >>> 6).toNat < 2 ^ 53
  omega

theorem isRounded_uniform (g : Generator) :
    Binary64.IsRounded (g.numerator.1 / 2 ^ 53) g.uniform.1 := by
  have hnearest := isNearestRank_fraction g.numerator.1 (twoPow_pos 53)
  rw [cast_twoPow] at hnearest
  have hnonneg : (0 : ℚ) ≤ g.numerator.1 / 2 ^ 53 := by positivity
  refine Binary64.isRounded_ofRank ?_ (by simpa using hnonneg)
  rwa [abs_of_nonneg hnonneg]

theorem uniform_between (g : Generator) :
    g.uniform.1.isFinite = true ∧ 0 ≤ g.uniform.1.value ∧ g.uniform.1.value ≤ 1 := by
  have hzero : (Binary64.ofInt 0).value = 0 := Binary64.value_zero
  have hone : (Binary64.ofInt 1).value = 1 := by exact_mod_cast Binary64.value_ofInt (by decide)
  have hbetween := g.isRounded_uniform.isFinite_between
    (Binary64.isFinite_ofInt (i := 0) (by decide)) (Binary64.isFinite_ofInt (i := 1) (by decide))
  rw [hzero, hone] at hbetween
  refine hbetween (div_nonneg (Nat.cast_nonneg _) (pow_nonneg zero_le_two 53)) ?_
  have hlt : (g.numerator.1 : ℚ) < 2 ^ 53 := by exact_mod_cast g.numerator_lt
  exact (div_le_one (by positivity)).2 hlt.le

end Generator

namespace Binary64

variable {draw range : Binary64}

theorem isFinite_oneHalf : (0.5 : Binary64).isFinite = true := by decide +kernel

theorem value_oneHalf : (0.5 : Binary64).value = 1 / 2 := by
  have hunits : (0.5 : Binary64).units = 2 ^ 1073 := by decide +kernel
  rw [value, hunits, pow_succ (2 : ℚ) 1073, Int.cast_pow, Int.cast_ofNat]
  field_simp

/-- Half of a finite number, rounded. -/
theorem isRounded_half (h : range.isFinite = true) : IsRounded (range.value / 2) (range / 2) := by
  have htwo : (2 : Binary64).value = 2 := by
    exact_mod_cast (value_ofInt (by decide) : (ofInt 2).value = (2 : ℤ))
  have hfinite : (2 : Binary64).isFinite = true := isFinite_ofInt (by decide)
  have hdiv := isRounded_div h hfinite
  rw [htwo] at hdiv
  exact hdiv two_pos

theorem isFinite_half (h : range.isFinite = true) : (range / 2).isFinite = true := by
  have hneg := value_neg h
  rcases le_total 0 range.value with hnonneg | hnonpos
  · exact ((isRounded_half h).isFinite_between (isFinite_neg h) h (by linarith) (by linarith)).1
  · exact ((isRounded_half h).isFinite_between h (isFinite_neg h) (by linarith) (by linarith)).1

/-- A draw less a half is not beyond a half, so its product with a range is
rounded once, and not beyond half the range. -/
theorem isRounded_offset (hdraw : draw.isFinite = true) (hnonneg : 0 ≤ draw.value)
    (hle : draw.value ≤ 1) (hrange : range.isFinite = true) :
    ∃ q : ℚ, -(1 / 2) ≤ q ∧ q ≤ 1 / 2 ∧ IsRounded (q * range.value) ((draw - 0.5) * range) := by
  have hsub := isRounded_sub hdraw isFinite_oneHalf
  have hbetween := hsub.isFinite_between (isFinite_neg isFinite_oneHalf) isFinite_oneHalf
  rw [value_neg isFinite_oneHalf, value_oneHalf] at hbetween
  obtain ⟨hfinite, hlow, hhigh⟩ := hbetween (by linarith) (by linarith)
  exact ⟨_, hlow, hhigh, isRounded_mul hfinite hrange⟩

end Binary64

/-! ## One text -/

/-- The position is not to the right of the other, and not below it. -/
structure Position.Before (p q : Position) : Prop where
  x : p.x ≤ q.x
  y : p.y ≤ q.y

/-- The position lies in the rectangle of two corners. -/
structure Position.Between (first last p : Position) : Prop where
  first : first.Before p
  last : p.Before last

namespace Canvas

/-- The place of a text that is moved off the middle. -/
def offCenter (c : Canvas) (e : Extent) (x y : Binary64) : Position :=
  ⟨c.center.x + .real x - e.half.width, c.center.y + .real y - e.half.height⟩

/-- The place half the range before the middle, inside the margins. -/
def nearFirst (c : Canvas) (e : Extent) (range : Binary64) : Position :=
  c.pulledInside e
    ⟨c.center.x - .real (range / 2) - e.half.width, c.center.y - .real (range / 2) - e.half.height⟩

/-- The place half the range behind the middle, inside the margins. -/
def nearLast (c : Canvas) (e : Extent) (range : Binary64) : Position :=
  c.pulledInside e
    ⟨c.center.x + .real (range / 2) - e.half.width, c.center.y + .real (range / 2) - e.half.height⟩

variable {c : Canvas} {directions : Except Failure (List (Binary64 × Binary64))}
  {occupied : List Box} {g : Generator} {s : Segment} {segments : List Segment} {e : Extent}
  {ratio range x x' y y' : Binary64} {r : Placing} {rs : List Placing}

theorem jittered_eq (c : Canvas) (e : Extent) (range x y : Binary64) :
    c.jittered e range x y = c.offCenter e ((x - 0.5) * range) ((y - 0.5) * range) := rfl

theorem nearFirst_eq (c : Canvas) (e : Extent) (range : Binary64) :
    c.nearFirst e range = c.pulledInside e (c.offCenter e (-(range / 2)) (-(range / 2))) := by
  have hsub (x y : Binary64) : Quantity.real x - .real y = .real x + .real (-y) := rfl
  rw [nearFirst, offCenter, center, hsub, hsub]

theorem nearLast_eq (c : Canvas) (e : Extent) (range : Binary64) :
    c.nearLast e range = c.pulledInside e (c.offCenter e (range / 2) (range / 2)) := rfl

/-- Along one side, the order of the moves is that of the coordinates. -/
theorem pulled_offCenter_mono {margin side extent : Quantity}
    (hmargin : ∃ m, margin = .real m ∧ m.isFinite = true)
    (hside : ∃ l, side = .real l ∧ l.isFinite = true)
    (hextent : ∃ w, extent = .real w ∧ w.isFinite = true) (h : x ≤ x') :
    margin.larger ((.real side.half + .real x - .real extent.half : Quantity).smaller
        (side - extent - margin)) ≤
      margin.larger ((.real side.half + .real x' - .real extent.half : Quantity).smaller
        (side - extent - margin)) := by
  obtain ⟨m, rfl, hm⟩ := hmargin
  obtain ⟨l, rfl, hl⟩ := hside
  obtain ⟨w, rfl, hw⟩ := hextent
  have hroom : (l - w - m).isNaN = false :=
    Binary64.isNaN_sub (Binary64.isNaN_sub (Binary64.isNaN_of_isFinite hl) hw) hm
  have hplace : l / 2 + x - w / 2 ≤ l / 2 + x' - w / 2 :=
    Binary64.sub_le_sub (Binary64.isFinite_half hw)
      (Binary64.add_le_add_left (Binary64.isFinite_half hl) h)
  simp only [Quantity.real_add_real, Quantity.real_sub_real, Quantity.real_smaller_real,
    Quantity.real_larger_real, Quantity.real_le_real]
  exact Binary64.larger_smaller_mono (Binary64.isNaN_of_isFinite hm) hroom hplace

theorem HasFiniteSides.pulledInside_mono (hc : c.HasFiniteSides) (he : e.IsFinite)
    (hx : x ≤ x') (hy : y ≤ y') :
    (c.pulledInside e (c.offCenter e x y)).Before (c.pulledInside e (c.offCenter e x' y')) where
  x := pulled_offCenter_mono hc.margin hc.width he.width hx
  y := pulled_offCenter_mono hc.margin hc.height he.height hy

theorem HasFiniteSides.shortSide_pos (hc : c.HasFiniteSides) :
    ∃ short, c.shortSide = .real short ∧ short.isFinite = true ∧ 0 < short.value := by
  obtain ⟨w, hw, hwFinite⟩ := hc.width
  obtain ⟨h, hh, hhFinite⟩ := hc.height
  have hwPos := c.width_pos
  have hhPos := c.height_pos
  rw [hw, Quantity.real_le_zero_iff] at hwPos
  rw [hh, Quantity.real_le_zero_iff] at hhPos
  rw [shortSide, hw, hh, Quantity.real_smaller_real, Binary64.smaller]
  split_ifs
  · exact ⟨h, rfl, hhFinite, Binary64.pos_of_not_le hhPos hhFinite⟩
  · exact ⟨w, rfl, hwFinite, Binary64.pos_of_not_le hwPos hwFinite⟩

/-- The sign of the range is that of the ratio. -/
theorem HasFiniteSides.range_sign (hc : c.HasFiniteSides) (hjitter : c.jitterRatio = .real ratio)
    (hratio : ratio.isFinite = true) (hrange : c.jitterRange = .ok range) :
    (0 ≤ ratio → 0 ≤ range) ∧ (ratio ≤ 0 → range ≤ 0) := by
  obtain ⟨short, hshort, hshortFinite, hpos⟩ := hc.shortSide_pos
  have hproduct : c.jitterRange = .ok (short * ratio) := by
    rw [jitterRange, jitterProduct, hjitter, hshort]
    rfl
  obtain rfl := Except.ok.inj (hproduct.symm.trans hrange)
  have hzero : Binary64.IsRounded 0 (0 : Binary64) := by
    exact_mod_cast (Binary64.isNearest_ofInt 0).isRounded
  have hrounded := Binary64.isRounded_mul hshortFinite hratio
  rw [Binary64.nonneg_iff_of_isFinite hratio, Binary64.nonpos_iff_of_isFinite hratio]
  constructor
  · intro hsign
    exact hzero.le hrounded (mul_nonneg hpos.le hsign)
  · intro hsign
    exact hrounded.le hzero (mul_nonpos_of_nonneg_of_nonpos hpos.le hsign)

/-- A move by a draw is between the moves by half the range. -/
theorem offset_between (g : Generator) (hfinite : range.isFinite = true) :
    (0 ≤ range → -(range / 2) ≤ (g.uniform.1 - 0.5) * range ∧
      (g.uniform.1 - 0.5) * range ≤ range / 2) ∧
    (range ≤ 0 → range / 2 ≤ (g.uniform.1 - 0.5) * range ∧
      (g.uniform.1 - 0.5) * range ≤ -(range / 2)) := by
  obtain ⟨hdraw, hnonneg, hle⟩ := g.uniform_between
  obtain ⟨q, hlow, hhigh, hoffset⟩ := Binary64.isRounded_offset hdraw hnonneg hle hfinite
  have hhalf := Binary64.isRounded_half hfinite
  rw [Binary64.nonneg_iff_of_isFinite hfinite, Binary64.nonpos_iff_of_isFinite hfinite]
  clear hdraw hnonneg hle
  constructor
  · intro hsign
    have hmulLow := mul_le_mul_of_nonneg_right hlow hsign
    have hmulHigh := mul_le_mul_of_nonneg_right hhigh hsign
    exact ⟨hhalf.neg.le hoffset (by linarith), hoffset.le hhalf (by linarith)⟩
  · intro hsign
    have hmulLow := mul_le_mul_of_nonpos_right hlow hsign
    have hmulHigh := mul_le_mul_of_nonpos_right hhigh hsign
    exact ⟨hhalf.le hoffset (by linarith), hoffset.le hhalf.neg (by linarith)⟩

/-- The text of two draws lies near the middle. -/
theorem HasFiniteSides.between_jittered (hc : c.HasFiniteSides) (he : e.IsFinite)
    (g g' : Generator) (hfinite : range.isFinite = true) :
    (0 ≤ range → Position.Between (c.nearFirst e range) (c.nearLast e range)
        (c.pulledInside e (c.jittered e range g.uniform.1 g'.uniform.1))) ∧
      (range ≤ 0 → Position.Between (c.nearLast e range) (c.nearFirst e range)
        (c.pulledInside e (c.jittered e range g.uniform.1 g'.uniform.1))) := by
  obtain ⟨hx, hxNeg⟩ := offset_between g hfinite
  obtain ⟨hy, hyNeg⟩ := offset_between g' hfinite
  rw [nearFirst_eq, nearLast_eq, jittered_eq]
  constructor
  · intro hsign
    obtain ⟨hxLow, hxHigh⟩ := hx hsign
    obtain ⟨hyLow, hyHigh⟩ := hy hsign
    exact ⟨hc.pulledInside_mono he hxLow hyLow, hc.pulledInside_mono he hxHigh hyHigh⟩
  · intro hsign
    obtain ⟨hxLow, hxHigh⟩ := hxNeg hsign
    obtain ⟨hyLow, hyHigh⟩ := hyNeg hsign
    exact ⟨hc.pulledInside_mono he hxLow hyLow, hc.pulledInside_mono he hxHigh hyHigh⟩

/-- A tagged text is put between the places half the range before and behind the
middle; they change places where the ratio is negative. -/
def StaysNear (c : Canvas) (ratio range : Binary64) (s : Segment) (p : Position) : Prop :=
  s.isTagged = true → ∃ e, c.extentOf s.text = .ok e ∧
    (0 ≤ ratio → Position.Between (c.nearFirst e range) (c.nearLast e range) p) ∧
    (ratio ≤ 0 → Position.Between (c.nearLast e range) (c.nearFirst e range) p)

theorem Places.staysNear (h : c.Places directions occupied g s r) (hc : c.HasFiniteSides)
    (hjitter : c.jitterRatio = .real ratio) (hratio : ratio.isFinite = true)
    (hrange : c.jitterRange = .ok range) (hfinite : range.isFinite = true)
    (hsize : ∃ e, c.extentOf s.text = .ok e ∧ e.IsFinite) :
    c.StaysNear ratio range s r.segment.position := by
  intro hs
  obtain ⟨e, he, hextent⟩ := hsize
  obtain ⟨e', range', he', hrange', hposition, -⟩ := h.tagged hs
  obtain rfl := Except.ok.inj (he.symm.trans he')
  obtain rfl := Except.ok.inj (hrange.symm.trans hrange')
  obtain ⟨hnonneg, hnonpos⟩ := hc.range_sign hjitter hratio hrange
  obtain ⟨hbetween, hswapped⟩ := hc.between_jittered hextent g g.uniform.2 hfinite
  rw [hposition]
  exact ⟨e, he, fun h => hbetween (hnonneg h), fun h => hswapped (hnonpos h)⟩

/-! ## All texts -/

theorem Run.staysNear (h : c.Run directions occupied g segments rs) (hc : c.HasFiniteSides)
    (hjitter : c.jitterRatio = .real ratio) (hratio : ratio.isFinite = true)
    (hrange : c.jitterRange = .ok range) (hfinite : range.isFinite = true)
    (hsizes : ∀ s ∈ segments, ∃ e, c.extentOf s.text = .ok e ∧ e.IsFinite) :
    List.Forall₂ (fun s t => c.StaysNear ratio range s t.position) segments
      (rs.map Placing.segment) := by
  induction h with
  | nil => exact .nil
  | cons hstep _ ih =>
    obtain ⟨hsize, hrest⟩ := List.forall_mem_cons.1 hsizes
    exact .cons (hstep.staysNear hc hjitter hratio hrange hfinite hsize) (ih hrest)

/-- On a canvas with finite sides and a finite jitter range, a layout puts every
tagged text near the middle, whatever the generator draws. -/
theorem layout_staysNear [Trigonometry] {c : Canvas} {g : Generator} {segments : List Segment} {l : Layout}
    {ratio range : Binary64} (hc : c.HasFiniteSides) (hjitter : c.jitterRatio = .real ratio)
    (hratio : ratio.isFinite = true) (hrange : c.jitterRange = .ok range)
    (hfinite : range.isFinite = true)
    (hsizes : ∀ s ∈ segments, ∃ e, c.extentOf s.text = .ok e ∧ e.IsFinite)
    (h : c.layout g segments = .ok l) :
    List.Forall₂ (fun s t => c.StaysNear ratio range s t.position) segments l.segments := by
  obtain ⟨rs, hrun, rfl⟩ := layout_eq_ok_iff.1 h
  exact hrun.staysNear hc hjitter hratio hrange hfinite hsizes

/-- The small canvas with a negative jitter ratio. -/
def mirroredCanvas : Canvas := { smallCanvas with jitterRatio := .real (-0.5) }

def sevenSeconds : Tag where
  entrySpeed := .whole 2
  entryDirection := .left
  displayDuration := .whole 3
  exitDirection := .right
  exitSpeed := .whole 2
  entrySpeed_inRange := by decide +kernel
  displayDuration_inRange := by decide +kernel
  exitSpeed_inRange := by decide +kernel

def taggedWord : Segment := { text := ['a'], index := 0, tag := some sevenSeconds }

/-- A draw of zero moves a letter behind the middle by half the range, which is
negative. -/
theorem layout_staysNear_mirrored :
    mirroredCanvas.HasFiniteSides ∧ mirroredCanvas.jitterRatio = .real (-0.5) ∧
      (-0.5 : Binary64).isFinite = true ∧ mirroredCanvas.jitterRange = .ok (-5) ∧
      (-5 : Binary64).isFinite = true ∧
      (∀ s ∈ [taggedWord], ∃ e, mirroredCanvas.extentOf s.text = .ok e ∧ e.IsFinite) ∧
      ∃ l, mirroredCanvas.layout ⟨#[], 0⟩ [taggedWord] = .ok l ∧
        l.segments.map Segment.position = [⟨.real 6.5, .real 6.5⟩] ∧
        mirroredCanvas.nearLast ⟨.real 2, .real 2⟩ (-5) = ⟨.real 1.5, .real 1.5⟩ ∧
        mirroredCanvas.nearFirst ⟨.real 2, .real 2⟩ (-5) = ⟨.real 6.5, .real 6.5⟩ ∧
        mirroredCanvas.StaysNear (-0.5) (-5) taggedWord ⟨.real 6.5, .real 6.5⟩ := by
  have hsides : mirroredCanvas.HasFiniteSides :=
    ⟨⟨10, rfl, by decide +kernel⟩, ⟨10, rfl, by decide +kernel⟩, ⟨0, rfl, by decide +kernel⟩⟩
  have hratio : (-0.5 : Binary64).isFinite = true := by decide +kernel
  have hrange : mirroredCanvas.jitterRange = .ok (-5) := by decide +kernel
  have hfinite : (-5 : Binary64).isFinite = true := by decide +kernel
  have hextent : mirroredCanvas.extentOf taggedWord.text = .ok ⟨.real 2, .real 2⟩ := by
    decide +kernel
  have hsizes : ∀ s ∈ [taggedWord], ∃ e, mirroredCanvas.extentOf s.text = .ok e ∧ e.IsFinite := by
    rw [List.forall_mem_singleton]
    exact ⟨_, hextent, ⟨2, rfl, by decide +kernel⟩, ⟨2, rfl, by decide +kernel⟩⟩
  have hlayout : (mirroredCanvas.layout ⟨#[], 0⟩ [taggedWord]).map
      (fun l => l.segments.map Segment.position) = .ok [⟨.real 6.5, .real 6.5⟩] := by
    decide +kernel
  obtain ⟨l, hl, hpositions⟩ := map_eq_ok_iff.1 hlayout
  have hstays := layout_staysNear hsides rfl hratio hrange hfinite hsizes hl
  refine ⟨hsides, rfl, hratio, hrange, hfinite, hsizes, l, hl, hpositions, by decide +kernel,
    by decide +kernel, ?_⟩
  obtain ⟨segments, diagnostics, generator⟩ := l
  obtain - | ⟨hnear, hnone⟩ := hstays
  cases hnone
  rw [List.map_singleton, List.cons.injEq] at hpositions
  rwa [hpositions.1] at hnear

end Canvas

end KineticText
