import KineticText.Number.Numeral
import KineticText.Text.Printable

/-!
# Data values

A value as it comes from a settings file or from a caller, and as it goes into
a report.  `inspect` shows a value unambiguously, with quotes around texts and
with the kind of a decimal or a date; `display` shows it for a message, where
these stand for themselves.
-/

namespace KineticText

/-- A value of configuration or report data. -/
inductive Datum where
  | null
  | bool (value : Bool)
  | int (value : Int)
  | real (value : Binary64)
  | decimal (value : Decimal)
  | date (written inspected : String)
  /-- The form of a number or a date that does not exist. -/
  | impossible (written : String)
  | text (value : String)
  | list (items : List Datum)
  | mapping (entries : List (Datum × Datum))
deriving Repr, Inhabited

namespace Datum

/-! ## Quoted text -/

def hexDigits (width n : Nat) : List Char :=
  let digits := Nat.toDigits 16 n
  List.replicate (width - digits.length) '0' ++ digits

/-- One character between quotes of the given kind. -/
def quotedChar (quote c : Char) : List Char :=
  if c = quote || c = '\\' then ['\\', c]
  else if c = '\n' then ['\\', 'n']
  else if c = '\r' then ['\\', 'r']
  else if c = '\t' then ['\\', 't']
  else if Text.isPrintable c then [c]
  else if c.toNat < 0x100 then '\\' :: 'x' :: hexDigits 2 c.toNat
  else if c.toNat < 0x10000 then '\\' :: 'u' :: hexDigits 4 c.toNat
  else '\\' :: 'U' :: hexDigits 8 c.toNat

/-- A text in single quotes, or in double quotes when it holds single quotes
only. -/
def quoted (s : List Char) : List Char :=
  let quote := if s.contains '\'' && !s.contains '"' then '"' else '\''
  quote :: s.flatMap (quotedChar quote) ++ [quote]

/-! ## Shown values -/

def commaSeparated (parts : List (List Char)) : List Char := [',', ' '].intercalate parts

mutual

def inspect : Datum → List Char
  | null => "None".toList
  | bool value => if value then "True".toList else "False".toList
  | int value => (toString value).toList
  | real value => value.text
  | decimal value => "Decimal('".toList ++ value.text ++ ['\'', ')']
  | date _ inspected => inspected.toList
  | impossible written => written.toList
  | text value => quoted value.toList
  | list items => '[' :: commaSeparated (inspectItems items) ++ [']']
  | mapping entries => '{' :: commaSeparated (inspectEntries entries) ++ ['}']

def inspectItems : List Datum → List (List Char)
  | [] => []
  | item :: rest => inspect item :: inspectItems rest

def inspectEntries : List (Datum × Datum) → List (List Char)
  | [] => []
  | (key, value) :: rest => (inspect key ++ ':' :: ' ' :: inspect value) :: inspectEntries rest

end

def display : Datum → List Char
  | text value => value.toList
  | decimal value => value.text
  | date written _ => written.toList
  | value => inspect value

/-- Whether a value that is no collection can be shown: a whole number has at
most `maxIntDigits` digits. -/
def hasDisplay : Datum → Bool
  | int value => value.natAbs < tenPow maxIntDigits
  | _ => true

mutual

/-- Whether a value can be inspected: no whole number in it has more than
`maxIntDigits` digits. -/
def hasInspection : Datum → Bool
  | int value => value.natAbs < tenPow maxIntDigits
  | list items => itemsHaveInspection items
  | mapping entries => entriesHaveInspection entries
  | _ => true

def itemsHaveInspection : List Datum → Bool
  | [] => true
  | item :: rest => hasInspection item && itemsHaveInspection rest

def entriesHaveInspection : List (Datum × Datum) → Bool
  | [] => true
  | (key, value) :: rest =>
    hasInspection key && hasInspection value && entriesHaveInspection rest

end

/-! ## Impossible values -/

mutual

def isPossible : Datum → Bool
  | impossible _ => false
  | list items => itemsArePossible items
  | mapping entries => entriesArePossible entries
  | _ => true

def itemsArePossible : List Datum → Bool
  | [] => true
  | item :: rest => isPossible item && itemsArePossible rest

def entriesArePossible : List (Datum × Datum) → Bool
  | [] => true
  | (key, value) :: rest => isPossible key && isPossible value && entriesArePossible rest

end

/-! ## Kinds and look-up -/

def isDecimal : Datum → Bool
  | decimal _ => true
  | _ => false

def lookup? (key : String) (entries : List (Datum × Datum)) : Option Datum :=
  (entries.find? fun entry =>
    match entry.1 with
    | text k => k == key
    | _ => false).map (·.2)

end Datum

end KineticText
