import KineticText.Number.Shortest
import KineticText.Text.Blank
import KineticText.Text.DecimalDigit

/-!
# Numerals

How numbers are read from text.  A numeral has an optional sign, digits with
at most one point among or beside them, and an optional power of ten.  Around
it there may be padding, between two of its digits an underscore, and its
digits may be of any script.  A double may also be spelled `inf`, `infinity`
or `nan`, in any case.
-/

namespace KineticText

/-- A number as written: sign, digits before and after the point, exponent. -/
structure Numeral where
  negative : Bool
  whole : List Char
  fraction : List Char
  exponent : Int
deriving DecidableEq, Repr

namespace Numeral

def decimal (n : Numeral) : Decimal :=
  ⟨n.negative, Nat.ofDigitChars 10 (n.whole ++ n.fraction) 0, n.exponent - n.fraction.length⟩

/-! ## Parts of a numeral -/

/-- Whether a sign in front says negative, and the text behind it. -/
def readSign : List Char → Bool × List Char
  | '-' :: rest => (true, rest)
  | '+' :: rest => (false, rest)
  | rest => (false, rest)

def readDigits? (s : List Char) : Option Nat :=
  if s.isEmpty || !s.all Char.isDigit then none else some (Nat.ofDigitChars 10 s 0)

def readExponent? : List Char → Option Int
  | [] => some 0
  | c :: rest =>
    if c = 'e' || c = 'E' then
      let (negative, digits) := readSign rest
      (readDigits? digits).map fun (n : Nat) => if negative then -(n : Int) else n
    else none

/-- A numeral of western digits without padding and underscores. -/
def read? (s : List Char) : Option Numeral :=
  let (negative, body) := readSign s
  let whole := body.takeWhile Char.isDigit
  let (fraction, rest) :=
    match body.dropWhile Char.isDigit with
    | '.' :: tail => (tail.takeWhile Char.isDigit, tail.dropWhile Char.isDigit)
    | tail => ([], tail)
  if whole.isEmpty && fraction.isEmpty then none
  else (readExponent? rest).map fun exponent => ⟨negative, whole, fraction, exponent⟩

/-! ## Padding, scripts and underscores -/

/-- Removes the underscores; each must stand between two digits. -/
def dropUnderscores? : (afterDigit : Bool) → List Char → Option (List Char)
  | _, [] => some []
  | afterDigit, c :: rest =>
    if c = '_' then
      if afterDigit && rest.head?.any Char.isDigit then dropUnderscores? false rest else none
    else (dropUnderscores? c.isDigit rest).map (c :: ·)

/-- The text in western digits, without padding and underscores. -/
def plain? (s : List Char) : Option (List Char) :=
  dropUnderscores? false ((Text.trim Text.isPadding s).map Text.toWesternDigit)

end Numeral

/-- The double nearest to the number that the text spells. -/
def Binary64.read? (s : List Char) : Option Binary64 := do
  let plain ← Numeral.plain? s
  let (negative, body) := Numeral.readSign plain
  let name := String.ofList (body.map Char.toLower)
  if name = "inf" || name = "infinity" then some (.infinity negative)
  else if name = "nan" then some .nan
  else (Numeral.read? plain).map (·.decimal.toBinary64)

/-- The greatest number of digits of a whole number that is read. -/
def maxIntDigits : Nat := 4300

/-- The whole number that the text spells: a sign and digits only. -/
def readInt? (s : List Char) : Option Int := do
  let plain ← Numeral.plain? s
  let (negative, digits) := Numeral.readSign plain
  if maxIntDigits < digits.length then none
  let n ← Numeral.readDigits? digits
  return if negative then -(n : Int) else n

end KineticText
