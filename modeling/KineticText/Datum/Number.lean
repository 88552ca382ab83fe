import KineticText.Fault
import KineticText.Number.Quantity

/-!
# Numbers in data

How a data value becomes a number: `quantity?` takes a number as it is,
`readNumber` accepts numbers and numerals for settings, `toDecimal` numbers
for times.  `times` and `ratioTo` combine quantities and report a whole number
that is too large for it.

In the program `readNumber` is `parse_number`, `readGap` is `parse_gap`, and
`toDecimal` is `to_decimal`; `secondsText` of its result is `format_number`.
-/

namespace KineticText

/-! ## Quantities in data -/

namespace Datum

def quantity? : Datum → Option Quantity
  | int value => some (.whole value)
  | real value => some (.real value)
  | bool value => some (.truth value)
  | _ => none

/-- The quantity that a value is; a value that is none does not fit. -/
def quantity (v : Datum) : Except Failure Quantity :=
  match v.quantity? with
  | some q => .ok q
  | none => .error .misfit

/-- Nothing, zero, and what has no items and no characters. -/
def isEmpty : Datum → Bool
  | null => true
  | bool value => !value
  | int value => value = 0
  | real value => value.sameNumber 0
  | decimal value => value.coefficient = 0
  | date _ _ | impossible _ => false
  | text value => value.isEmpty
  | list items => items.isEmpty
  | mapping entries => entries.isEmpty

end Datum

namespace Quantity

def toDatum : Quantity → Datum
  | whole value => .int value
  | real value => .real value
  | truth value => .bool value

def double (q : Quantity) : Except Failure Binary64 :=
  if q.hasDouble then .ok q.toBinary64 else .error .tooLarge

def times (p q : Quantity) : Except Failure Quantity :=
  if p.fits q then .ok (p * q) else .error .tooLarge

/-- The quotient of two quantities.  That of whole numbers must be finite. -/
def ratioTo (p q : Quantity) : Except Failure Binary64 :=
  let r := p / q
  if p.fits q && (r.isFinite || p.whole?.isNone || q.whole?.isNone) then .ok r
  else .error .tooLarge

end Quantity

/-! ## Numbers written without a power of ten -/

/-- A number as it is written in a tag: no zeros at its end, no power of ten,
and no sign in front of a zero. -/
def Decimal.secondsText (d : Decimal) : List Char :=
  let n := d.normalize
  if n.coefficient = 0 then ['0'] else n.plainText

namespace Datum

/-! ## Times -/

def toDecimal : Datum → Except Fault Decimal
  | decimal value => .ok value
  | bool _ => .error .timeIsBool
  | int value => .ok (.ofInt value)
  | real value =>
    match value.toDecimal? with
    | some d => .ok d
    | none => .error (.timeNotFinite value)
  | _ => .error .timeKind

/-! ## Settings -/

/-- The number that a value gives to the setting called `name`. -/
def readNumber (name : String) (v : Datum) : Except Failure Binary64 := do
  let x ← match v with
    | null => .error (.fault (.required name))
    | int i => (Quantity.whole i).double
    | real x => .ok x
    | text s =>
      match Binary64.read? (Text.trim Text.isBlank s.toList) with
      | some x => .ok x
      | none => .error (.fault (.notNumeral name s))
    | _ => .error (.fault (.notNumber name))
  if x.isFinite then return x else throw (.fault (.notFinite name))

def minGap : Binary64 := -2

def maxGap : Binary64 := 5

def readGap (v : Datum) : Except Failure Binary64 := do
  let gap ← v.readNumber "gap"
  if gap < minGap || maxGap < gap then throw (.fault .gapRange)
  return gap

end Datum

end KineticText
