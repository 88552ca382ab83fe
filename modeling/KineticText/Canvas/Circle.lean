import KineticText.Number.Decimal

/-!
# Directions around a circle

The places on a ring lie in directions that are as many equal parts of a turn
from each other.  A direction is the cosine and the sine of its angle.  Which
doubles these are is left open (`Trigonometry`).

In the program `directions` are the angles, cosines and sines of
`_ring_candidates`.
-/

namespace KineticText

/-- The cosine and the sine of an angle, as doubles. -/
class Trigonometry where
  cos : Binary64 → Binary64
  sin : Binary64 → Binary64

namespace Circle

/-- The angle of place `i` where a whole turn has `samples` places. -/
def angle (samples : Binary64) (i : Nat) : Binary64 :=
  .ofInt i / samples * 2 * .pi

section Directions

variable [Trigonometry]

/-- The unit vector to place `i` where a whole turn has `samples` places, with
its cosine first. -/
def direction (samples : Binary64) (i : Nat) : Binary64 × Binary64 :=
  (Trigonometry.cos (angle samples i), Trigonometry.sin (angle samples i))

/-- The unit vectors to the first `count` places. -/
def directions (samples : Binary64) (count : Nat) : List (Binary64 × Binary64) :=
  (List.range count).map (direction samples)

end Directions

end Circle

end KineticText
