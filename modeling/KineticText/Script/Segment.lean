import KineticText.Tag.Basic

/-!
# Segments

A segment is a group of words that moves as one.  Reading a script gives it
its text, its tag and its place in the order; a schedule gives it its times,
and a layout its position.

In the program these are `Segment` and `Position`; `finish` is `end_time`.
-/

namespace KineticText

/-- The top left corner of a text on the canvas. -/
structure Position where
  x : Quantity := .real 0
  y : Quantity := .real 0
deriving DecidableEq, Repr, Inhabited

/-- A group of words that moves as one. -/
structure Segment where
  text : List Char
  index : Nat
  tag : Option Tag := none
  /-- Seconds from the start of the timeline. -/
  start : Quantity := .real 0
  /-- Seconds from start to end. -/
  duration : Quantity := .real 0
  position : Position := {}
deriving DecidableEq, Repr

namespace Segment

def isTagged (s : Segment) : Bool := s.tag.isSome

def finish (s : Segment) : Quantity := s.start + s.duration

end Segment

end KineticText
