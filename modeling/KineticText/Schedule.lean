import KineticText.Script.Segment

/-!
# Schedules

Segments play in order.  Each lasts as long as its tag says, and starts a
fixed gap after the end of the one before it; a negative gap makes them
overlap.  Times are added as decimals of 28 significant digits and become
doubles only in the result, so that rounding to doubles does not accumulate.

In the program `gapOf` is the constructor of `TimelineScheduler`, `assign` is its
`schedule`, and `totalDuration` is `total_duration`.
-/

namespace KineticText

namespace Schedule

/-- How long a segment without a tag lasts: two seconds. -/
def untaggedSeconds : Decimal := ⟨false, 20, -1⟩

def secondsOf (s : Segment) : Decimal :=
  match s.tag with
  | some tag => tag.seconds
  | none => untaggedSeconds

def gapOf (v : Datum) : Except Failure Decimal := do
  let gap ← v.readNumber "gap"
  return (Quantity.real gap).seconds

/-- Schedules segments from a cursor on, and extends a running total to their
ends. -/
def assignFrom (gap cursor total : Decimal) : List Segment → List Segment × Decimal
  | [] => ([], total)
  | s :: rest =>
    let seconds := secondsOf s
    let (timed, total) := assignFrom gap (cursor + (seconds + gap))
      (total.larger (cursor + seconds)) rest
    ({ s with start := .real cursor.toBinary64, duration := .real seconds.toBinary64 } :: timed, total)

/-- The segments with their times, and the end of the last one to end. -/
def assign (gap : Decimal) (segments : List Segment) : List Segment × Binary64 :=
  let (timed, total) := assignFrom gap (.ofInt 0) (.ofInt 0) segments
  (timed, total.toBinary64)

/-- The decimal end of a segment that has its times. -/
def endOf (s : Segment) : Except Fault Decimal := do
  let start ← s.start.toDatum.toDecimal
  let duration ← s.duration.toDatum.toDecimal
  return start + duration

/-- The end of the last segment to end, from the times that segments have. -/
def totalDuration (segments : List Segment) : Except Fault Binary64 := do
  match ← segments.mapM endOf with
  | [] => return 0
  | first :: rest => return (rest.foldl Decimal.larger first).toBinary64

end Schedule

end KineticText
