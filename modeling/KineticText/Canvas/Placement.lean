import KineticText.Canvas.Box
import KineticText.Canvas.Circle

/-!
# Places on a canvas

A tagged text lies near the middle of the canvas, off it by a random amount.  A
text without a tag takes the first free place on rings of growing radius around
the middle.  Every place is then pulled inside the margins.

Whole numbers have no bound, and some are beyond all doubles.  Where a place is
made of doubles, such a number ends the operation; what is asked of the numbers
beforehand is what the operations after it need.

In the program `jittered` is what `_jitter_position` returns, `validMask` is
`_valid_mask`, `freePlace?` is the loop of `_spiral_position` over the rings and
`centeredPlace` what it returns behind them, `pulledInside` is `_constrain`, and
`rescale` is `rescale_positions`.

There are three groups: places near the middle, the search on the rings, and
the margins.
-/

namespace KineticText

namespace Canvas

/-! ## Near the middle -/

/-- Whether both sides have doubles, so that there is a middle. -/
def hasCenter (c : Canvas) : Bool := c.width.hasDouble && c.height.hasDouble

def center (c : Canvas) : Position := ⟨.real c.width.half, .real c.height.half⟩

def centered (c : Canvas) (e : Extent) : Position :=
  ⟨c.center.x - e.half.width, c.center.y - e.half.height⟩

/-- The product that is the width of the range in which a tagged text is moved
off the middle. -/
def jitterProduct (c : Canvas) : Except Failure Quantity := do
  let ratio ← c.jitterRatio.quantity
  c.shortSide.times ratio

/-- The width of that range as a double. -/
def jitterRange (c : Canvas) : Except Failure Binary64 := do
  let product ← c.jitterProduct
  product.double

def offset (range draw : Binary64) : Quantity := .real ((draw - 0.5) * range)

/-- The place of a tagged text for two draws. -/
def jittered (c : Canvas) (e : Extent) (range drawX drawY : Binary64) : Position :=
  ⟨c.center.x + offset range drawX - e.half.width,
   c.center.y + offset range drawY - e.half.height⟩

/-- The place of a text in the middle, unless a size is too large for it. -/
def centeredPlace (c : Canvas) (e : Extent) : Except Failure Position :=
  if c.hasCenter && e.hasDoubles then .ok (c.centered e) else .error .tooLarge

/-! ## The search on the rings -/

def maxRingCount : Nat := twoPow 60

/-- How many places a ring has in full: the number given, rounded up. -/
def ringCount (samples : Quantity) : Except Failure Nat :=
  let count :=
    match samples.whole?, samples.toBinary64 with
    | some n, _ => n.toNat
    | none, x@(.finite ..) => (x.units.toNat + (twoPow 1074 - 1)) / twoPow 1074
    | none, _ => maxRingCount
  if count < maxRingCount then .ok count else .error .ringCount

def ringDirections [Trigonometry] (samples : Quantity) : Except Failure (List (Binary64 × Binary64)) := do
  let count ← ringCount samples
  return Circle.directions samples.toBinary64 count

/-- The place of a text of a half size in a direction on the ring of a radius
around a middle. -/
def ringPlace (middle : Position) (half : Extent) (radius : Binary64)
    (direction : Binary64 × Binary64) : Position :=
  ⟨middle.x + .real (direction.1 * radius) - half.width,
   middle.y + .real (direction.2 * radius) - half.height⟩

/-- Whether a text lies inside the margins, which stand for the nearest
doubles. -/
def insideMargins (c : Canvas) (e : Extent) (p : Position) : Bool :=
  c.margin.rounded ≤ p.x && c.margin.rounded ≤ p.y &&
    p.x + e.width ≤ (c.width - c.margin).rounded &&
    p.y + e.height ≤ (c.height - c.margin).rounded

/-- The comparison of two columns, a row for each entry of the first. -/
def table (compare : Quantity → Quantity → Bool) (column others : List Quantity) :
    List (List Bool) :=
  column.map fun p => others.map (compare p)

/-- Which of several places are inside the margins and have a box that is apart
from all others, decided for all of them at once: each side of their boxes is a
column. -/
def validMask (c : Canvas) (e : Extent) (occupied : List Box) (places : List Position) :
    List Bool :=
  let inside := places.map (c.insideMargins e)
  if occupied.isEmpty then inside
  else
    let left := places.map fun p => p.x - c.minSpacing
    let top := places.map fun p => p.y - c.minSpacing
    let right := places.map fun p => p.x + e.width + c.minSpacing
    let bottom := places.map fun p => p.y + e.height + c.minSpacing
    let less := table (· < ·)
    let greater := table (· > ·)
    let either := List.zipWith (List.zipWith (· || ·))
    let apart :=
      either (either (either
        (less right (occupied.map Box.left)) (greater left (occupied.map Box.right)))
        (less bottom (occupied.map Box.top))) (greater top (occupied.map Box.bottom))
    List.zipWith (· && ·) inside (apart.map fun row => row.all id)

/-- The first place on the ring of a radius that is free. -/
def freeOnRing? (c : Canvas) (directions : List (Binary64 × Binary64)) (e : Extent)
    (occupied : List Box) (radius : Binary64) : Option Position :=
  let places := directions.map (ringPlace c.center e.half radius)
  ((places.zip (c.validMask e occupied places)).find? Prod.snd).map Prod.fst

/-- How a search ends, if it ends. -/
inductive SearchResult where
  | found (place : Position)
  | full
  /-- The radius stopped growing below its limit. -/
  | endless
deriving DecidableEq, Repr

/-- Looks for the first ring with an answer, from a radius on in steps, below a
limit. -/
def searchFrom (onRing? : Binary64 → Option Position) (limit step radius : Binary64) :
    SearchResult :=
  if radius < limit then
    match onRing? radius with
    | some place => .found place
    | none =>
      if radius < radius + step then searchFrom onRing? limit step (radius + step)
      else if radius + step < limit then .endless
      else .full
  else .full
termination_by (limit.key - radius.key).toNat
decreasing_by
  have := Binary64.key_lt_of_lt ‹radius < limit›
  have := Binary64.key_lt_of_lt ‹radius < radius + step›
  omega

/-- The search for a free place, from the middle outwards.  Boxes stand for
the nearest doubles. -/
def search (c : Canvas) (directions : List (Binary64 × Binary64)) (e : Extent)
    (occupied : List Box) : SearchResult :=
  searchFrom (c.freeOnRing? directions e (occupied.map Box.rounded)) c.shortSide.half
    c.ringStep.toBinary64 0

/-- Whether the numbers that the places on a ring are made of and compared with
have doubles.  The spacing is needed only where there is a box besides. -/
def canCompare (c : Canvas) (e : Extent) (occupied : List Box) : Bool :=
  e.hasDoubles && c.margin.hasDouble && (occupied.isEmpty || c.minSpacing.hasDouble)

/-- The free place that a search finds, if it finds one.  Boxes become doubles
before a place is looked for.  Middle and directions are needed only where there
is a ring, and a step only behind the first ring. -/
def freePlace? (c : Canvas) (directions : Except Failure (List (Binary64 × Binary64)))
    (e : Extent) (occupied : List Box) : Except Failure (Option Position) := do
  if !(occupied.all Box.hasDoubles && c.shortSide.hasDouble) then throw .tooLarge
  if 0 < c.shortSide.half then
    if !c.hasCenter then throw .tooLarge
    let directions ← directions
    if !c.canCompare e occupied then throw .tooLarge
    match c.search directions e occupied with
    | .found place => return some place
    | .full => if c.ringStep.hasDouble then return none else throw .tooLarge
    | .endless => throw .endlessSearch
  else return none

/-! ## The margins -/

/-- Whether the room that margins and a text leave can be computed. -/
def hasRoom (c : Canvas) (e : Extent) : Bool :=
  c.width.fits e.width && (c.width - e.width).fits c.margin &&
    c.height.fits e.height && (c.height - e.height).fits c.margin

/-- The place pulled inside the margins; the left and the upper margin win
where a text does not fit. -/
def pulledInside (c : Canvas) (e : Extent) (p : Position) : Position :=
  ⟨c.margin.larger (p.x.smaller (c.width - e.width - c.margin)),
   c.margin.larger (p.y.smaller (c.height - e.height - c.margin))⟩

/-- The positions of segments carried over to a canvas of another size. -/
def rescale (old new : Canvas) (segments : List Segment) : Except Failure (List Segment) := do
  let scaleX ← new.width.ratioTo old.width
  let scaleY ← new.height.ratioTo old.height
  segments.mapM fun s => do
    let x ← s.position.x.times (.real scaleX)
    let y ← s.position.y.times (.real scaleY)
    return { s with position := ⟨x, y⟩ }

end Canvas

end KineticText
