import KineticText.Yaml.Timestamp

/-!
# Values of scalars without quotes

`valueOf?` gives the value of a scalar by its form.  A form may promise more
than there is, such as the thirtieth of February; its value is an impossible
one, with which no settings can be made.
-/

namespace KineticText.Yaml

def colonParts (s : List Char) : List (List Char) := s.splitOn ':'

/-- The whole number of an unsigned form without underscores. -/
def wholeOf (s : List Char) : Nat :=
  match s with
  | '0' :: 'b' :: digits => digitsValue 2 digits
  | '0' :: 'x' :: digits => digitsValue 16 digits
  | '0' :: digits => digitsValue 8 digits
  | s => (colonParts s).foldl (fun n part => 60 * n + digitsValue 10 part) 0

/-- Whether an unsigned form without underscores names a whole number: there are
digits, and in base ten not too many of them. -/
def hasWhole (s : List Char) : Bool :=
  match s with
  | ['0', 'b'] | ['0', 'x'] => false
  | '0' :: _ => true
  | s => (colonParts s).all fun part => part.length ≤ maxIntDigits

/-- The double of an unsigned form without underscores: sixtieths are added
from the last part on. -/
def realOf (s : List Char) : Binary64 :=
  let value := fun part => (Binary64.read? part).getD .nan
  match (colonParts s).reverse with
  | [part] => value part
  | parts =>
    (parts.foldl (fun (sum, base) part =>
      (sum + value part * .ofInt base, base * 60)) ((0 : Binary64), (1 : Int))).1

/-- The value of a scalar without quotes, if it has one. -/
def valueOf? (s : List Char) : Option Datum :=
  let plain := s.filter (· ≠ '_')
  let negative := plain.head? = some '-'
  let body := eatOptional isSign plain
  match formOf s with
  | .text => some (.text (String.ofList s))
  | .null => some .null
  | .bool => some (.bool (trueWords.contains (String.ofList s)))
  | .int =>
    if hasWhole body then some (.int (if negative then -(wholeOf body : Int) else wholeOf body))
    else some (.impossible (String.ofList s))
  | .real =>
    let magnitude :=
      match String.ofList (body.map Char.toLower) with
      | ".inf" => .infinity false
      | ".nan" => .nan
      | _ => realOf body
    some (.real (if negative then -magnitude else magnitude))
  | .date =>
    let t := Timestamp.read s
    if t.isPossible then some (.date (String.ofList t.text) (String.ofList t.inspect))
    else some (.impossible (String.ofList s))
  | .reserved => none

end KineticText.Yaml
