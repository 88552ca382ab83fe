import KineticText.Canvas.Placement
import KineticText.Diagnostic
import KineticText.Generator

/-!
# Engines

An engine places rows of texts.  From one row to the next it keeps its generator,
and the advice about the last row until the next one begins.  The texts of a row
are placed in order, each beside the boxes of those before it: one with a tag
near the middle of the canvas, off it by two draws, and one without a tag at a
free place; if there is none it is put in the middle, with advice.

What an engine does may fail.  It has then drawn and advised what came before
the failure.

In the program an `Engine` is a `LayoutEngine`, whose canvas stands beside it here,
and `Engine.layout` is its `layout`; `choosePlace` is `_jitter_position` for a text
with a tag and `_spiral_position` for one without, and `Canvas.layout` is the
function `layout`.

There are three groups: engines, one text, and a row of texts.
-/

namespace KineticText

/-! ## Engines -/

/-- What is kept from one row of texts to the next. -/
structure Engine where
  generator : Generator
  /-- The advice about the last row. -/
  diagnostics : List Diagnostic := []

namespace Engine

/-- What an engine can do; a failure leaves it as far as it has come. -/
abbrev Action := EStateM Failure Engine

def draw : Action Binary64 :=
  modifyGet fun engine =>
    (engine.generator.uniform.1, { engine with generator := engine.generator.uniform.2 })

def advise (d : Diagnostic) : Action PUnit :=
  modify fun engine => { engine with diagnostics := engine.diagnostics ++ [d] }

def forgetAdvice : Action PUnit :=
  modify fun engine => { engine with diagnostics := [] }

/-- What a new engine with a shared generator does, and the advice it gives. -/
def fresh {α : Type} (action : Action α) : EStateM Failure Generator (α × List Diagnostic) :=
  fun g =>
    match action.run { generator := g } with
    | .ok a engine => .ok (a, engine.diagnostics) engine.generator
    | .error f engine => .error f engine.generator

end Engine

open Engine

namespace Canvas

/-! ## One text -/

/-- The place of a tagged text, off the middle by two draws. -/
def jitteredPlace (c : Canvas) (e : Extent) : Action Position := do
  if !c.hasCenter then throw .tooLarge
  let product ← c.jitterProduct
  let drawX ← draw
  let range ← product.double
  let drawY ← draw
  if !e.hasDoubles then throw .tooLarge
  return c.jittered e range drawX drawY

/-- The place of a segment before it is pulled inside the margins. -/
def choosePlace (c : Canvas) (directions : Except Failure (List (Binary64 × Binary64)))
    (occupied : List Box) (s : Segment) (e : Extent) : Action Position := do
  if s.isTagged then c.jitteredPlace e
  else
    match ← c.freePlace? directions e occupied with
    | some place => return place
    | none =>
      advise (.layoutOverflow s.text s.index)
      c.centeredPlace e

/-- Puts a segment at its place, and gives its box besides. -/
def place (c : Canvas) (directions : Except Failure (List (Binary64 × Binary64)))
    (occupied : List Box) (s : Segment) : Action (Segment × Box) := do
  let e ← c.extentOf s.text
  let place ← c.choosePlace directions occupied s e
  if !c.hasRoom e then throw .tooLarge
  let place := c.pulledInside e place
  let box ← Box.of place e c.minSpacing
  return ({ s with position := place }, box)

/-! ## A row of texts -/

/-- Places segments one after another around the boxes placed before. -/
def placeAll (c : Canvas) (directions : Except Failure (List (Binary64 × Binary64))) :
    List Box → List Segment → Action (List Segment)
  | _, [] => return []
  | occupied, s :: rest => do
    let (placed, box) ← c.place directions occupied s
    let others ← c.placeAll directions (box :: occupied) rest
    return placed :: others

end Canvas

/-- A row of placed segments, the advice about it, and the generator behind it. -/
structure Layout where
  segments : List Segment
  diagnostics : List Diagnostic
  generator : Generator

section Row

variable [Trigonometry] (c : Canvas)

/-- The directions that the search among segments uses; without a segment that
searches there are none. -/
def Canvas.searchDirections (segments : List Segment) :
    Except Failure (List (Binary64 × Binary64)) :=
  if segments.all Segment.isTagged then .ok [] else ringDirections c.ringSamples

/-- Places a row of segments.  What has been said about an earlier row is
forgotten. -/
def Engine.layout (segments : List Segment) : Action (List Segment) := do
  forgetAdvice
  c.placeAll (c.searchDirections segments) [] segments

/-- The layout that a new engine makes of segments. -/
def Canvas.layout (g : Generator) (segments : List Segment) : Except Failure Layout :=
  match (Engine.fresh (Engine.layout c segments)).run g with
  | .ok (segments, diagnostics) generator => .ok ⟨segments, diagnostics, generator⟩
  | .error f _ => .error f

end Row

end KineticText
