import KineticText.Datum.Number

/-!
# The canvas

A canvas has a size, a margin, and the numbers that steer where texts are put:
fonts, distances, and the rings on which free places are looked for.  Its
numbers keep the kind they were given in.  Those that must not be too small
are in range by construction; the others are looked at only where they are
used.  A canvas is made from named data values (`ofEntries`), or from a size
and named values that replace the usual ones (`ofSize`).

In the program a `Canvas` is a `LayoutConfig`, `ofEntries` its constructor, and
`ofSize` is `create_layout_config`.
-/

namespace KineticText

/-- A canvas.  An undefined number passes every check, since no comparison with
it holds. -/
structure Canvas where
  width : Quantity
  height : Quantity
  margin : Quantity
  minSpacing : Quantity
  lineHeight : Datum
  centerBias : Datum
  ringStep : Quantity
  ringSamples : Quantity
  fontSize : Datum
  glyphWidthRatio : Datum
  lineHeightRatio : Datum
  /-- How far a tagged text may lie from the middle, in short sides. -/
  jitterRatio : Datum
  width_pos : ¬ width ≤ 0
  height_pos : ¬ height ≤ 0
  margin_nonneg : ¬ margin < 0
  minSpacing_nonneg : ¬ minSpacing < 0
  ringStep_pos : ¬ ringStep ≤ 0
  ringSamples_pos : ¬ ringSamples < 1
deriving Repr

namespace Canvas

def shortSide (c : Canvas) : Quantity := c.width.smaller c.height

def accept (p : Quantity → Prop) [DecidablePred p] (f : Fault) (v : Datum) :
    Except Failure { q : Quantity // p q } := do
  let q ← v.quantity
  if h : p q then return ⟨q, h⟩ else throw (.fault f)

/-- The names of the numbers that may be set besides the size. -/
def layoutKeys : List String :=
  ["margin", "min_spacing", "line_height", "center_bias", "spiral_step", "spiral_samples",
   "font_size", "glyph_width_ratio", "line_height_ratio", "jitter_ratio"]

def sizeKeys : List String := ["canvas_width", "canvas_height"]

/-! ## Canvases from data -/

/-- The canvas of named values.  Size and margin are needed, the others have
usual values; an unknown name does not fit.  Of several unusable numbers the
first one in the order of the checks is reported. -/
def ofEntries (entries : List (String × Datum)) : Except Failure Canvas := do
  if !entries.all fun (key, _) => sizeKeys.contains key || layoutKeys.contains key then
    throw .misfit
  if !("margin" :: sizeKeys).all fun key => (entries.lookup key).isSome then
    throw .misfit
  let value := fun (key : String) (usual : Binary64) => (entries.lookup key).getD (.real usual)
  let ⟨width, h₁⟩ ← accept (¬ · ≤ 0) .canvasSize (value "canvas_width" 0)
  let ⟨height, h₂⟩ ← accept (¬ · ≤ 0) .canvasSize (value "canvas_height" 0)
  let ⟨margin, h₃⟩ ← accept (¬ · < 0) .negativeSpacing (value "margin" 0)
  let ⟨minSpacing, h₄⟩ ← accept (¬ · < 0) .negativeSpacing (value "min_spacing" 20)
  let ⟨ringStep, h₅⟩ ← accept (¬ · ≤ 0) .ringStep (value "spiral_step" 20)
  let ⟨ringSamples, h₆⟩ ← accept (¬ · < 1) .ringSamples
    ((entries.lookup "spiral_samples").getD (.int 8))
  return {
    width, height, margin, minSpacing, ringStep, ringSamples
    lineHeight := value "line_height" 40
    centerBias := value "center_bias" 0.7
    fontSize := value "font_size" 32
    glyphWidthRatio := value "glyph_width_ratio" 0.6
    lineHeightRatio := value "line_height_ratio" 1.2
    jitterRatio := value "jitter_ratio" 0.1
    width_pos := h₁
    height_pos := h₂
    margin_nonneg := h₃
    minSpacing_nonneg := h₄
    ringStep_pos := h₅
    ringSamples_pos := h₆ }

/-- The canvas of a size, with other numbers as given or as usual.  The sides
become doubles.  The usual margin is a twentieth of the short side. -/
def ofSize (width height : Datum) (others : List (String × Datum)) : Except Failure Canvas := do
  if others.any fun (key, _) => sizeKeys.contains key then throw .misfit
  let ⟨width, _⟩ ← accept (¬ · ≤ 0) .canvasSize width
  let ⟨height, _⟩ ← accept (¬ · ≤ 0) .canvasSize height
  let width ← width.double
  let height ← height.double
  ofEntries (others ++
    [("canvas_width", .real width), ("canvas_height", .real height),
     ("margin", .real (width.smaller height * 0.05))])

def usualSize : Datum × Datum := (.int 800, .int 600)

end Canvas

end KineticText
