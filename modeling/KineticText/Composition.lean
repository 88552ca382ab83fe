import KineticText.Canvas.Engine
import KineticText.Schedule
import KineticText.Script.Reading

/-!
# Compositions

A composition is a script with times and places: what is shown, when, and
where.  Gap and text may be any data value; the gap is checked first.

In the program a `Composition` is a `TimelineResult`, and `compose` is
`compile_text` with a generator given.
-/

namespace KineticText

/-- A script with times and places. -/
structure Composition where
  segments : List Segment
  totalDuration : Binary64
  displayText : List Char
  diagnostics : List Diagnostic
deriving DecidableEq, Repr

namespace Composition

variable [Trigonometry]

/-- Composes a script with draws from a generator.  A failure leaves the generator
behind the draws made before it. -/
def attempt (text gap : Datum) (canvas : Canvas) : EStateM Failure Generator Composition := do
  let gap ← Schedule.gapOf gap
  let source ← (Script.textOf text).mapError Failure.fault
  let script := Script.read source
  let (timed, total) := Schedule.assign gap script.segments
  let (placed, advice) ← Engine.fresh (Engine.layout canvas timed)
  return {
    segments := placed
    totalDuration := total
    displayText := Script.displayText source
    diagnostics := script.diagnostics ++ advice }

/-- The composition of a script, and the generator after its draws. -/
def compose (text gap : Datum) (canvas : Canvas) (g : Generator) :
    Except Failure (Composition × Generator) :=
  match (attempt text gap canvas).run g with
  | .ok composition g => .ok (composition, g)
  | .error f _ => .error f

end Composition

end KineticText
