import KineticText.Datum.Number

/-!
# Motion tags

A motion tag says how a piece of text moves: it enters from a direction, stays
on display and leaves in a direction, each for a number of seconds.  Its text
form is `<` entry seconds, entry direction, display seconds, exit direction,
exit seconds `>`, as in `<0.3F1.2R0.9>`.

The numbers of a `Tag` are in range by construction; `NumberField.accept` is
the one check.

In the program a `Tag` is a `MotionTag`, `make` its constructor with the checks of
`_check_range`, and `text` is `to_tag_string`.
-/

namespace KineticText

/-! ## Directions -/

/-- Where a text comes from or goes to. -/
inductive Direction where
  | left
  | right
  | front
  | back
deriving DecidableEq, Repr

namespace Direction

def letter : Direction → Char
  | left => 'L'
  | right => 'R'
  | front => 'F'
  | back => 'B'

def ofLetter? (c : Char) : Option Direction :=
  if c = 'L' then some left
  else if c = 'R' then some right
  else if c = 'F' then some front
  else if c = 'B' then some back
  else none

def name : Direction → String
  | left => "Left"
  | right => "Right"
  | front => "Front"
  | back => "Back"

end Direction

/-! ## Times in range -/

/-- A time is in range if it is positive, also as a double, and at most the
limit. -/
def Decimal.inRange (limit : Nat) (d : Decimal) : Bool :=
  Decimal.ofInt 0 < d && !(Decimal.ofInt limit < d) && (0 : Binary64) < d.toBinary64

def Quantity.inRange (limit : Nat) (q : Quantity) : Bool :=
  match q.toDecimal? with
  | some d => d.inRange limit
  | none => false

/-- Accepts a quantity in range, and else reports its decimal. -/
def NumberField.accept (f : NumberField) (q : Quantity) :
    Except TagError { q : Quantity // q.inRange f.limit = true } :=
  if h : q.inRange f.limit = true then .ok ⟨q, h⟩ else .error (.number f q.seconds.text)

/-! ## Tags -/

/-- How a piece of text moves. -/
structure Tag where
  entrySpeed : Quantity
  entryDirection : Direction
  displayDuration : Quantity
  exitDirection : Direction
  exitSpeed : Quantity
  entrySpeed_inRange : entrySpeed.inRange NumberField.entrySpeed.limit = true
  displayDuration_inRange : displayDuration.inRange NumberField.displayDuration.limit = true
  exitSpeed_inRange : exitSpeed.inRange NumberField.exitSpeed.limit = true
deriving DecidableEq, Repr

namespace Tag

/-- The seconds from the start of entering to the end of leaving. -/
def seconds (t : Tag) : Decimal :=
  t.entrySpeed.seconds + t.displayDuration.seconds + t.exitSpeed.seconds

def totalDuration (t : Tag) : Binary64 := t.seconds.toBinary64

def text (t : Tag) : List Char :=
  '<' :: (t.entrySpeed.seconds.secondsText ++ t.entryDirection.letter ::
    (t.displayDuration.seconds.secondsText ++ t.exitDirection.letter ::
      (t.exitSpeed.seconds.secondsText ++ ['>'])))

/-! ## Tags from separate values -/

/-- A value given for a field of a tag, which is no decimal: numbers of a tag are
whole numbers or doubles. -/
inductive Argument where
  | direction (value : Direction)
  | datum (value : Datum) (isDecimal_eq : value.isDecimal = false)

/-- A time given as a data value. -/
def Argument.time (f : NumberField) : Argument →
    Except Fault { q : Quantity // q.inRange f.limit = true }
  | datum (.int value) _ => (f.accept (.whole value)).mapError .tag
  | datum (.real value) _ => do
    let _ ← (Datum.real value).toDecimal
    (f.accept (.real value)).mapError .tag
  | datum (.bool _) _ => .error .timeIsBool
  | _ => .error .timeKind

/-- A direction given as such; anything else is shown in the rejection, if it can
be. -/
def Argument.asDirection (f : DirectionField) : Argument → Except Failure Direction
  | direction value => .ok value
  | datum value _ =>
    .error <|
      if value.hasInspection then .fault (.tag (.direction f value.display)) else .impossibleValue

/-- The tag of five values; the first wrong one is reported. -/
def make : List Argument → Except Failure Tag
  | [entrySpeed, entry, display, exit, exitSpeed] => do
    let ⟨entrySpeed, h₁⟩ ← (entrySpeed.time .entrySpeed).mapError .fault
    let entryDirection ← entry.asDirection .entry
    let ⟨displayDuration, h₂⟩ ← (display.time .displayDuration).mapError .fault
    let exitDirection ← exit.asDirection .exit
    let ⟨exitSpeed, h₃⟩ ← (exitSpeed.time .exitSpeed).mapError .fault
    return ⟨entrySpeed, entryDirection, displayDuration, exitDirection, exitSpeed, h₁, h₂, h₃⟩
  | _ => .error .misfit

end Tag

end KineticText
