import KineticText.Script.Segment

/-!
# The timeline

What is on display at a point in time, how far each segment has got, and when
the next change comes.  Times are quantities, and those of a schedule doubles.

In the program `inPhase` gives each list of `state_at_time`, `progress` is
`segment_progress`, and `nextEvent?` is `next_event_time`.
-/

namespace KineticText

/-- A segment is active from its start to its end, both included. -/
inductive Phase where
  | active
  | completed
  | upcoming
deriving DecidableEq, Repr

namespace Timeline

def phase (time : Quantity) (s : Segment) : Phase :=
  if s.start ≤ time && time ≤ s.finish then .active
  else if s.finish < time then .completed
  else .upcoming

def inPhase (p : Phase) (segments : List Segment) (time : Quantity) : List Segment :=
  segments.filter fun s => phase time s = p

/-- The part of a segment that has passed, between zero and one. -/
def progress (s : Segment) (time : Quantity) : Binary64 :=
  if time < s.start then 0
  else if s.finish < time || s.duration ≤ 0 then 1
  else (time - s.start) / s.duration

/-- Whether the end of a segment and its progress at a time can be computed. -/
def fits (s : Segment) (time : Quantity) : Bool :=
  s.start.fits s.duration &&
    (time < s.start || s.finish < time || s.duration ≤ 0 ||
      (time.fits s.start && (time - s.start).fits s.duration))

/-- Checks that no time of the segments is too large to be looked at. -/
def check (segments : List Segment) (time : Quantity) : Except Failure Unit :=
  if segments.all (fits · time) then .ok () else .error .tooLarge

/-- The starts and ends after a time, segment by segment. -/
def eventsAfter (segments : List Segment) (time : Quantity) : List Quantity :=
  (segments.flatMap fun s => [s.start, s.finish]).filter fun event => time < event

/-- The earliest start or end after a time. -/
def nextEvent? (segments : List Segment) (time : Quantity) : Option Quantity :=
  match eventsAfter segments time with
  | [] => none
  | first :: rest => some (rest.foldl Quantity.smaller first)

end Timeline

end KineticText
