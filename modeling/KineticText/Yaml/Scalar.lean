import KineticText.Datum

/-!
# Scalars without quotes

A YAML scalar without quotes is read by its form, by the rules of version 1.1:
nothing, a truth value, a number, a date, or else a text.  `formOf` names the
form.  A text must be quoted when it would be read as something else.
-/

namespace KineticText.Yaml

/-! ## Recognising forms -/

/-- What a scalar without quotes stands for. -/
inductive Form where
  | text
  | null
  | bool
  | int
  | real
  | date
  /-- `=` and `<<`, which have a meaning of their own. -/
  | reserved
deriving DecidableEq, Repr

/-- The rest of a text that starts with a character of a class. -/
def eat? (p : Char → Bool) : List Char → Option (List Char)
  | [] => none
  | c :: rest => if p c then some rest else none

def eatOptional (p : Char → Bool) (s : List Char) : List Char := (eat? p s).getD s

def eatMany? (p : Char → Bool) (s : List Char) : Option (List Char) :=
  (eat? p s).map (·.dropWhile p)

def isSign (c : Char) : Bool := c = '-' || c = '+'

/-- Digits may be grouped by underscores. -/
def isGroupedDigit (c : Char) : Bool := c.isDigit || c = '_'

def isHexDigit (c : Char) : Bool :=
  c.isDigit || ('a' ≤ c && c ≤ 'f') || ('A' ≤ c && c ≤ 'F')

/-- Parts below sixty behind colons, at least one, and then a rest for which
`last` holds. -/
def areSixtieths (last : List Char → Bool) : List Char → Bool
  | ':' :: c :: d :: rest =>
    c.isDigit && (last (d :: rest) || areSixtieths last (d :: rest) ||
      (c ≤ '5' && d.isDigit && (last rest || areSixtieths last rest)))
  | [':', c] => c.isDigit && last []
  | _ => false

/-- A whole number: binary, octal, decimal, hexadecimal, or with sixtieths. -/
def isIntForm (s : List Char) : Bool :=
  let body := eatOptional isSign s
  match body with
  | '0' :: 'b' :: digits => !digits.isEmpty && digits.all fun c => c = '0' || c = '1' || c = '_'
  | '0' :: 'x' :: digits => !digits.isEmpty && digits.all fun c => isHexDigit c || c = '_'
  | '0' :: digits => digits.all fun c => ('0' ≤ c && c ≤ '7') || c = '_'
  | c :: rest =>
    c.isDigit &&
      (rest.all isGroupedDigit ||
        areSixtieths List.isEmpty (rest.dropWhile isGroupedDigit))
  | [] => false

/-- An exponent with a sign, or nothing. -/
def isExponentOrEnd (s : List Char) : Bool :=
  s.isEmpty ||
    (((eat? (fun c => c = 'e' || c = 'E') s).bind (eat? isSign)).bind
      (eatMany? Char.isDigit)).any List.isEmpty

/-- A fraction with a point, perhaps with sixtieths in front of it, or an
infinity, or an undefined number. -/
def isRealForm (s : List Char) : Bool :=
  let body := eatOptional isSign s
  let afterWhole := (eat? Char.isDigit body).map (·.dropWhile isGroupedDigit)
  let pointed := ((afterWhole.bind (eat? (· = '.'))).map (·.dropWhile isGroupedDigit)).any
    isExponentOrEnd
  let bare := (((eat? (· = '.') s).bind (eat? Char.isDigit)).map (·.dropWhile isGroupedDigit)).any
    isExponentOrEnd
  let sixtieths := afterWhole.any fun rest =>
    areSixtieths (fun tail => (eat? (· = '.') tail).any (·.all isGroupedDigit)) rest
  pointed || bare || sixtieths ||
    [".inf", ".Inf", ".INF"].contains (String.ofList body) ||
    [".nan", ".NaN", ".NAN"].contains (String.ofList s)

def isDayForm (s : List Char) : Bool :=
  match s with
  | [y₁, y₂, y₃, y₄, '-', m₁, m₂, '-', d₁, d₂] =>
    [y₁, y₂, y₃, y₄, m₁, m₂, d₁, d₂].all Char.isDigit
  | _ => false

/-- A time zone, or nothing. -/
def isZoneOrEnd (s : List Char) : Bool :=
  s.isEmpty ||
    match s.dropWhile (fun c => c = ' ' || c = '\t') with
    | ['Z'] => true
    | zone =>
      (((eat? isSign zone).bind (eat? Char.isDigit)).map (eatOptional Char.isDigit)).any fun rest =>
        rest.isEmpty ||
          (((eat? (· = ':') rest).bind (eat? Char.isDigit)).bind (eat? Char.isDigit)).any
            List.isEmpty

def isTimeForm (s : List Char) : Bool :=
  let digit := eat? Char.isDigit
  let oneOrTwo := fun s => (digit s).map (eatOptional Char.isDigit)
  let behindDay := do
    let s ← (digit s).bind digit |>.bind digit |>.bind digit
    let s ← (eat? (· = '-') s).bind oneOrTwo
    (eat? (· = '-') s).bind oneOrTwo
  let behindGap := behindDay.bind fun s =>
    (eat? (fun c => c = 'T' || c = 't') s).or (eatMany? (fun c => c = ' ' || c = '\t') s)
  let behindTime := do
    let s ← behindGap.bind oneOrTwo
    let s ← ((eat? (· = ':') s).bind digit).bind digit
    ((eat? (· = ':') s).bind digit).bind digit
  behindTime.any fun s =>
    isZoneOrEnd (((eat? (· = '.') s).map (·.dropWhile Char.isDigit)).getD s)

def trueWords : List String := ["yes", "Yes", "YES", "true", "True", "TRUE", "on", "On", "ON"]

def falseWords : List String := ["no", "No", "NO", "false", "False", "FALSE", "off", "Off", "OFF"]

def nullWords : List String := ["", "~", "null", "Null", "NULL"]

def formOf (s : List Char) : Form :=
  let word := String.ofList s
  if trueWords.contains word || falseWords.contains word then .bool
  else if isRealForm s then .real
  else if isIntForm s then .int
  else if nullWords.contains word then .null
  else if isDayForm s || isTimeForm s then .date
  else if word = "=" || word = "<<" then .reserved
  else .text

def digitsValue (base : Nat) (digits : List Char) : Nat :=
  digits.foldl (fun n c =>
    base * n + (if c.isDigit then c.toNat - 48 else c.toLower.toNat - 87)) 0

end KineticText.Yaml
