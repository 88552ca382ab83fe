import KineticText.Number.Binary64

/-!
# Decimal numbers

A decimal is a sign, a whole coefficient and a power of ten.  Decimals hold
the numbers written in tags and the times of a schedule.  Two decimals may be
the same number with different exponents (`2.0` and `2.00`); the exponent
shows only when the decimal is written.

There are four groups: exact comparison, sums kept to 28 significant digits,
the nearest double, and the written forms.
-/

namespace KineticText

/-- The number `± coefficient * 10 ^ exponent`. -/
structure Decimal where
  negative : Bool
  coefficient : Nat
  exponent : Int
deriving DecidableEq, Repr

namespace Decimal

def ofInt (i : Int) : Decimal := ⟨i < 0, i.natAbs, 0⟩

/-- How many digits the coefficient has; zero has one. -/
def digitCount (d : Decimal) : Nat := (Nat.toDigits 10 d.coefficient).length

def leadingExponent (d : Decimal) : Int := d.exponent + d.digitCount - 1

/-! ## Exact comparison -/

/-- The signed coefficient at a smaller exponent `e`, so that the number is
`d.scaledTo e * 10 ^ e`. -/
def scaledTo (d : Decimal) (e : Int) : Int :=
  let magnitude := d.coefficient * tenPow (d.exponent - e).toNat
  if d.negative then -(magnitude : Int) else magnitude

def lt (a b : Decimal) : Bool :=
  let e := min a.exponent b.exponent
  a.scaledTo e < b.scaledTo e

instance : LT Decimal := ⟨fun a b => a.lt b = true⟩
instance (a b : Decimal) : Decidable (a < b) := inferInstanceAs (Decidable (a.lt b = true))

def larger (a b : Decimal) : Decimal := if a < b then b else a

/-! ## Sums -/

/-- How many significant digits a sum keeps. -/
def precision : Nat := 28

/-- The decimal nearest to a number among those of at most `precision`
digits, ties to the even last digit. -/
def round (d : Decimal) : Decimal :=
  let surplus := d.digitCount - precision
  if surplus = 0 then d
  else
    let kept := halfEven d.coefficient (tenPow surplus)
    if kept = tenPow precision then ⟨d.negative, tenPow (precision - 1), d.exponent + surplus + 1⟩
    else ⟨d.negative, kept, d.exponent + surplus⟩

/-- The rounded sum.  An exact zero is negative only if both terms are. -/
def add (a b : Decimal) : Decimal :=
  let e := min a.exponent b.exponent
  let sum := a.scaledTo e + b.scaledTo e
  round ⟨if sum = 0 then a.negative && b.negative else sum < 0, sum.natAbs, e⟩

instance : Add Decimal := ⟨add⟩

/-- Drops the zeros at the end of a coefficient, at most `fuel` of them. -/
def dropZeros : Nat → Nat → Int → Nat × Int
  | 0, c, e => (c, e)
  | fuel + 1, c, e => if c % 10 = 0 then dropZeros fuel (c / 10) (e + 1) else (c, e)

/-- The rounded number without zeros at the end of its coefficient. -/
def normalize (d : Decimal) : Decimal :=
  let r := d.round
  if r.coefficient = 0 then ⟨r.negative, 0, 0⟩
  else
    let (coefficient, exponent) := dropZeros r.digitCount r.coefficient r.exponent
    ⟨r.negative, coefficient, exponent⟩

/-! ## The nearest double -/

/-- The nearest double.  Beyond 310 digits before the point every number is
infinite, and below 330 zeros after it every number is zero. -/
def toBinary64 (d : Decimal) : Binary64 :=
  if d.coefficient = 0 then .zero d.negative
  else if 310 < d.leadingExponent then .infinity d.negative
  else if d.leadingExponent < -330 then .zero d.negative
  else .ofFraction d.negative (d.coefficient * tenPow d.exponent.toNat) (tenPow (-d.exponent).toNat)

/-- A literal such as `0.05` is the double nearest to it. -/
instance : OfScientific Binary64 where
  ofScientific digits negativeExponent exponent :=
    toBinary64 ⟨false, digits, if negativeExponent then -(exponent : Int) else exponent⟩

/-! ## Written forms -/

def signText (d : Decimal) : List Char := if d.negative then ['-'] else []

/-- Digits with a point before the last `places` of them, and with at least
one digit in front of the point. -/
def withPoint (digits : List Char) (places : Nat) : List Char :=
  if places = 0 then digits
  else
    let padded := List.replicate (places + 1 - digits.length) '0' ++ digits
    padded.take (padded.length - places) ++ '.' :: padded.drop (padded.length - places)

def plainText (d : Decimal) : List Char :=
  d.signText ++ withPoint (Nat.toDigits 10 d.coefficient ++ List.replicate d.exponent.toNat '0')
    (-d.exponent).toNat

/-- One digit, the others behind a point, and the exponent after the mark,
with a sign and at least `width` digits. -/
def scientificText (d : Decimal) (mark : Char) (width : Nat) : List Char :=
  let digits := Nat.toDigits 10 d.coefficient
  let power := Nat.toDigits 10 d.leadingExponent.natAbs
  d.signText ++ withPoint digits (digits.length - 1) ++
    mark :: (if d.leadingExponent < 0 then '-' else '+') ::
      (List.replicate (width - power.length) '0' ++ power)

/-- The form of a decimal in messages: plain from `0.000001` on as long as no
digit is hidden by the power of ten, else with an exponent after `E`. -/
def text (d : Decimal) : List Char :=
  if d.exponent ≤ 0 ∧ -6 ≤ d.leadingExponent then d.plainText else d.scientificText 'E' 1

end Decimal

end KineticText
