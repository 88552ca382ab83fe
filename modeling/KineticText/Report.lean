import KineticText.Settings
import KineticText.Timeline

/-!
# Reports

A composition as data, in the order in which a report lists it, and the part
of a report about one point in time.

In the program each `toDatum` is a `to_dict`, and `report` is `build_report`.
-/

namespace KineticText

def Datum.ofChars (s : List Char) : Datum := .text (String.ofList s)

def Datum.record (entries : List (String × Datum)) : Datum :=
  .mapping (entries.map fun (key, value) => (.text key, value))

def Datum.count (n : Nat) : Datum := .int n

def Tag.toDatum (t : Tag) : Datum :=
  .record
    [(NumberField.entrySpeed.key, t.entrySpeed.toDatum),
     (DirectionField.entry.key, .text t.entryDirection.name),
     (NumberField.displayDuration.key, t.displayDuration.toDatum),
     (DirectionField.exit.key, .text t.exitDirection.name),
     (NumberField.exitSpeed.key, t.exitSpeed.toDatum)]

/-- A diagnostic; what it does not have is left out. -/
def Diagnostic.toDatum (d : Diagnostic) : Datum :=
  .record <|
    [("kind", .text d.kind), ("message", .text d.message)] ++
      (d.field.map fun field => ("field", Datum.text field)).toList ++
      (d.token.map fun token => ("token", Datum.text token)).toList ++
      (d.tokenIndex.map fun index => ("token_index", Datum.int index)).toList

def Position.toDatum (p : Position) : Datum :=
  .record [("x", p.x.toDatum), ("y", p.y.toDatum)]

/-- A segment; only one with a tag lists a tag. -/
def Segment.toDatum (s : Segment) : Datum :=
  .record <|
    [("index", .count s.index), ("text", .ofChars s.text), ("start", s.start.toDatum),
     ("duration", s.duration.toDatum), ("position", s.position.toDatum)] ++
      match s.tag with
      | some tag => [("tag", .ofChars tag.text), ("motion", tag.toDatum)]
      | none => []

def Composition.toDatum (c : Composition) : Datum :=
  .record
    [("display_text", .ofChars c.displayText), ("total_duration", .real c.totalDuration),
     ("segments", .list (c.segments.map Segment.toDatum)),
     ("diagnostics", .list (c.diagnostics.map Diagnostic.toDatum))]

namespace Timeline

def indices (p : Phase) (segments : List Segment) (time : Quantity) : List Nat :=
  (inPhase p segments time).map Segment.index

def countList (ns : List Nat) : Datum := .list (ns.map .count)

/-- What is on display at a time, which is shown as a data value. -/
def toDatum (shown : Datum) (segments : List Segment) (time : Quantity) : Datum :=
  .record
    [("time", shown),
     ("active", countList (indices .active segments time)),
     ("completed", countList (indices .completed segments time)),
     ("upcoming", countList (indices .upcoming segments time)),
     ("next_event", ((nextEvent? segments time).map Quantity.toDatum).getD .null)]

/-- What is on display at the time that a value stands for.  A value that is no
number cannot be compared with any segment. -/
def describe (segments : List Segment) (time : Datum) : Except Failure Datum :=
  match time.quantity?, segments with
  | some q, segments => .ok (toDatum time segments q)
  | none, [] => .ok (toDatum time [] 0)
  | none, _ => .error .misfit

end Timeline

/-- The entries of a report: a composition, and what is on display at a time
if one is asked for. -/
def report (c : Composition) (time : Option Datum) : Except Failure Datum :=
  match c.toDatum, time with
  | .mapping entries, some time => do
    let state ← Timeline.describe c.segments time
    return .mapping (entries ++ [(.text "at", state)])
  | datum, _ => .ok datum

def Canvas.toDatum (c : Canvas) : Datum :=
  .record
    [("canvas_width", c.width.toDatum), ("canvas_height", c.height.toDatum),
     ("margin", c.margin.toDatum), ("min_spacing", c.minSpacing.toDatum),
     ("line_height", c.lineHeight), ("center_bias", c.centerBias),
     ("spiral_step", c.ringStep.toDatum), ("spiral_samples", c.ringSamples.toDatum),
     ("font_size", c.fontSize), ("glyph_width_ratio", c.glyphWidthRatio),
     ("line_height_ratio", c.lineHeightRatio), ("jitter_ratio", c.jitterRatio)]

end KineticText
