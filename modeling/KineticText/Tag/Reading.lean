import KineticText.Tag.Basic

/-!
# Reading a tag

The content of a tag is number, direction, number, direction, number, with
nothing between or behind them.  It is read in two passes: the first looks for
the five parts and reports the first one that is not there, the second checks
the ranges of the three numbers in order.

In the program `readDatum` is `parse_tag`, `validate` is `validate_tag`, `content`
is `_strip_delimiters`, `UnsignedNumeral.scan?` is `_scan_number`, and `badRun` is
`_bad_run`.
-/

namespace KineticText

/-! ## Parts -/

/-- The digits of an unsigned number.  A number with a point has digits behind
it, any number has a digit somewhere. -/
structure UnsignedNumeral where
  whole : List Char
  fraction : List Char
deriving DecidableEq, Repr

namespace UnsignedNumeral

def text (n : UnsignedNumeral) : List Char :=
  if n.fraction.isEmpty then n.whole else n.whole ++ '.' :: n.fraction

def decimal (n : UnsignedNumeral) : Decimal :=
  ⟨false, Nat.ofDigitChars 10 (n.whole ++ n.fraction) 0, -n.fraction.length⟩

/-- The longest unsigned number in front of a text, and the text behind it. -/
def scan? (s : List Char) : Option (UnsignedNumeral × List Char) :=
  let whole := s.takeWhile Char.isDigit
  match s.dropWhile Char.isDigit with
  | '.' :: tail =>
    let fraction := tail.takeWhile Char.isDigit
    if fraction.isEmpty then none else some (⟨whole, fraction⟩, tail.dropWhile Char.isDigit)
  | tail => if whole.isEmpty then none else some (⟨whole, []⟩, tail)

end UnsignedNumeral

namespace Tag

/-- What a rejected number is shown as: the text up to the next direction
letter, or that letter itself. -/
def badRun (s : List Char) : List Char :=
  match s.takeWhile fun c => (Direction.ofLetter? c).isNone with
  | [] => s.take 1
  | run => run

def takeNumber (f : NumberField) (s : List Char) :
    Except TagError (UnsignedNumeral × List Char) :=
  match UnsignedNumeral.scan? s with
  | some found => .ok found
  | none => .error (.number f (badRun s))

def takeDirection (f : DirectionField) : List Char → Except TagError (Direction × List Char)
  | [] => .error (.direction f [])
  | c :: rest =>
    match Direction.ofLetter? c with
    | some d => .ok (d, rest)
    | none => .error (.direction f [c])

def checkRange (f : NumberField) (n : UnsignedNumeral) : Except TagError Unit :=
  if n.decimal.inRange f.limit then .ok () else .error (.number f n.text)

/-! ## The five parts -/

structure Parts where
  entrySpeed : UnsignedNumeral
  entryDirection : Direction
  displayDuration : UnsignedNumeral
  exitDirection : Direction
  exitSpeed : UnsignedNumeral
deriving DecidableEq, Repr

namespace Parts

def text (p : Parts) : List Char :=
  p.entrySpeed.text ++ p.entryDirection.letter ::
    (p.displayDuration.text ++ p.exitDirection.letter :: p.exitSpeed.text)

/-- The parts that a content is made of; the first one that is not there is
reported. -/
def read (s : List Char) : Except TagError Parts :=
  if s.isEmpty then .error .empty
  else do
    let (entrySpeed, s) ← takeNumber .entrySpeed s
    let (entryDirection, s) ← takeDirection .entry s
    let (displayDuration, s) ← takeNumber .displayDuration s
    let (exitDirection, s) ← takeDirection .exit s
    let (exitSpeed, s) ← takeNumber .exitSpeed s
    if s.isEmpty then
      return ⟨entrySpeed, entryDirection, displayDuration, exitDirection, exitSpeed⟩
    else throw (.trailing s)

def checkRanges (p : Parts) : Except TagError Unit := do
  checkRange .entrySpeed p.entrySpeed
  checkRange .displayDuration p.displayDuration
  checkRange .exitSpeed p.exitSpeed

/-- The tag of the doubles nearest to the three numbers. -/
def tag (p : Parts) : Except TagError Tag := do
  let ⟨entrySpeed, h₁⟩ ← NumberField.entrySpeed.accept (.real p.entrySpeed.decimal.toBinary64)
  let ⟨displayDuration, h₂⟩ ←
    NumberField.displayDuration.accept (.real p.displayDuration.decimal.toBinary64)
  let ⟨exitSpeed, h₃⟩ ← NumberField.exitSpeed.accept (.real p.exitSpeed.decimal.toBinary64)
  return ⟨entrySpeed, p.entryDirection, displayDuration, p.exitDirection, exitSpeed, h₁, h₂, h₃⟩

end Parts

/-! ## The whole tag -/

/-- The text without its enclosing brackets, if it has both. -/
def content (raw : List Char) : List Char :=
  match raw with
  | '<' :: rest => if rest.getLast? = some '>' then rest.dropLast else raw
  | _ => raw

/-- The tag that a text spells, with or without its brackets. -/
def read (raw : List Char) : Except TagError Tag := do
  let parts ← Parts.read (content raw)
  parts.checkRanges
  parts.tag

/-- The tag that a data value spells; only texts spell tags.  What is no text is
shown in the rejection, if it can be. -/
def readDatum : Datum → Except Failure Tag
  | .text s => (read s.toList).mapError (.fault ∘ .tag)
  | v => .error (if v.hasInspection then .fault (.tag (.notText v.inspect)) else .impossibleValue)

/-- Whether a data value spells a tag, and else what is wrong with it; only the
rejection of a tag is an answer. -/
def validate (v : Datum) : Except Failure (Bool × Option String) :=
  match readDatum v with
  | .ok _ => .ok (true, none)
  | .error (.fault (.tag e)) => .ok (false, some e.message)
  | .error f => .error f

end Tag

end KineticText
