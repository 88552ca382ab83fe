import KineticText.Canvas.Basic
import KineticText.Script.Segment

/-!
# Boxes of texts

The size of a text is estimated from its length.  Around its place it owns a
box that is wider by the least spacing on every side; two boxes that touch
overlap.

In the program `Canvas.extentOf` is `estimate_dimensions`, `Box.of` is
`collision_box`, and `overlaps` is `boxes_overlap`.
-/

namespace KineticText

structure Extent where
  width : Quantity
  height : Quantity
deriving DecidableEq, Repr

def Extent.half (e : Extent) : Extent := ⟨.real e.width.half, .real e.height.half⟩

def Extent.hasDoubles (e : Extent) : Bool := e.width.hasDouble && e.height.hasDouble

/-- The size of a text: its characters side by side, and one line. -/
def Canvas.extentOf (c : Canvas) (text : List Char) : Except Failure Extent := do
  let font ← c.fontSize.quantity
  let glyphWidth ← c.glyphWidthRatio.quantity
  let width ← (.whole text.length * font : Quantity).times glyphWidth
  let lineHeight ← c.lineHeightRatio.quantity
  let height ← font.times lineHeight
  return ⟨width, height⟩

/-- A rectangle by its four sides; `bottom` is below `top` on the canvas, and
so the greater number. -/
structure Box where
  left : Quantity
  top : Quantity
  right : Quantity
  bottom : Quantity
deriving DecidableEq, Repr

namespace Box

/-- The box of a text at a place, with spacing on every side. -/
def around (place : Position) (extent : Extent) (spacing : Quantity) : Box where
  left := place.x - spacing
  top := place.y - spacing
  right := place.x + extent.width + spacing
  bottom := place.y + extent.height + spacing

def fits (place : Position) (extent : Extent) (spacing : Quantity) : Bool :=
  place.x.fits spacing && place.x.fits extent.width && (place.x + extent.width).fits spacing &&
    place.y.fits spacing && place.y.fits extent.height && (place.y + extent.height).fits spacing

/-- The box of a text at a place, unless a side is too large for it. -/
def of (place : Position) (extent : Extent) (spacing : Quantity) : Except Failure Box :=
  if fits place extent spacing then .ok (around place extent spacing) else .error .tooLarge

/-- Whether no side is beyond all doubles. -/
def hasDoubles (b : Box) : Bool := [b.left, b.top, b.right, b.bottom].all Quantity.hasDouble

def rounded (b : Box) : Box := ⟨b.left.rounded, b.top.rounded, b.right.rounded, b.bottom.rounded⟩

/-- Whether two boxes have a point in common, if all sides are defined. -/
def overlaps (a b : Box) : Bool :=
  !(a.right < b.left || b.right < a.left || a.bottom < b.top || b.bottom < a.top)

end Box

end KineticText
