import KineticText.Number.Decimal

/-!
# The shortest decimal of a double

Each finite double owns the interval of real numbers that round to it.  Its
shortest decimal lies on the coarsest power-of-ten grid that meets the
interval, and is the point of that grid nearest to the double (ties to the
even digit) if that point is in the interval.

There are three groups: the interval, the search over grids, and the decimal
and the text that a double is written as.
-/

namespace KineticText

namespace Binary64

/-! ## The interval of a double -/

/-- The lower end of the interval of a rank, in halves of a unit. -/
def intervalLow (rank : Nat) : Nat := unitsAt (rank - 1) + unitsAt rank

def intervalHigh (rank : Nat) : Nat := unitsAt rank + unitsAt (rank + 1)

/-- Whether `digits * 10 ^ exponent` rounds to the magnitude of the rank; the
ends of the interval do so for even ranks. -/
def readsBack (rank digits : Nat) (exponent : Int) : Bool :=
  let point := digits * tenPow exponent.toNat * twoPow 1075
  let low := intervalLow rank * tenPow (-exponent).toNat
  let high := intervalHigh rank * tenPow (-exponent).toNat
  if rank % 2 = 0 then low ≤ point && point ≤ high else low < point && point < high

/-! ## The search -/

/-- The digits of the point nearest to the magnitude on the grid of
`10 ^ exponent`. -/
def nearestDigits (rank : Nat) (exponent : Int) : Nat :=
  halfEven (unitsAt rank * tenPow (-exponent).toNat) (twoPow 1074 * tenPow exponent.toNat)

/-- The other neighbour of the magnitude on the grid. -/
def otherDigits (rank : Nat) (exponent : Int) : Nat :=
  let below := unitsAt rank * tenPow (-exponent).toNat / (twoPow 1074 * tenPow exponent.toNat)
  if nearestDigits rank exponent = below then below + 1 else below

/-- A grid point that reads back, the nearer of two. -/
def gridHit? (rank : Nat) (exponent : Int) : Option Nat :=
  if readsBack rank (nearestDigits rank exponent) exponent then
    some (nearestDigits rank exponent)
  else if readsBack rank (otherDigits rank exponent) exponent then
    some (otherDigits rank exponent)
  else none

/-- The first hit on `count` ever finer grids, and after them the nearest
point of the last one. -/
def firstHit (rank : Nat) : (count : Nat) → (exponent : Int) → Nat × Int
  | 0, exponent => (nearestDigits rank exponent, exponent)
  | count + 1, exponent =>
    match gridHit? rank exponent with
    | some digits => (digits, exponent)
    | none => firstHit rank count (exponent - 1)

/-- A power of ten above twice the magnitude, so that no coarser grid meets
the interval; `30103 / 100000` is just above the logarithm of two. -/
def coarsestExponent (rank : Nat) : Int :=
  ((((unitsAt rank).log2 + 1) * 30103 / 100000 : Nat) : Int) - 322

/-- The digits and the exponent of the shortest decimal of a positive
magnitude.  Twenty grids reach past the seventeen digits that always read
back. -/
def shortest (rank : Nat) : Nat × Int := firstHit rank 20 (coarsestExponent rank)

/-! ## The written double -/

/-- Leading digits from `10 ^ -4` up to below `10 ^ 16` are written in plain
form. -/
def writtenPlainly (d : Decimal) : Bool := -4 ≤ d.leadingExponent && d.leadingExponent < 16

/-- The decimal of a finite double as it is written: the shortest one, with a
zero behind the point of a whole number in plain form. -/
def writtenDecimal (negative : Bool) (magnitude : Magnitude) : Decimal :=
  if magnitude.rank = 0 then ⟨negative, 0, -1⟩
  else
    let (digits, exponent) := shortest magnitude.rank
    let d : Decimal := ⟨negative, digits, exponent⟩
    if writtenPlainly d && 0 ≤ exponent then
      ⟨negative, digits * tenPow (exponent.toNat + 1), -1⟩
    else d

def toDecimal? : Binary64 → Option Decimal
  | finite negative magnitude => some (writtenDecimal negative magnitude)
  | _ => none

/-- The text of a double: plain, or with an exponent of a sign and at least
two digits. -/
def text : Binary64 → List Char
  | nan => "nan".toList
  | infinity negative => if negative then "-inf".toList else "inf".toList
  | finite negative magnitude =>
    let d := writtenDecimal negative magnitude
    if writtenPlainly d then d.plainText else d.scientificText 'e' 2

end Binary64

end KineticText
