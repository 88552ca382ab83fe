import KineticText.Yaml.ScalarValue
import KineticText.Yaml.Source

/-!
# Scalars in a document

A scalar stands plainly or between quotes.  Both may go on over several lines.
Each reader gives what it read and the spots behind it; `none` means that the
document is not well-formed.
-/

namespace KineticText.Yaml

/-! ## Between quotes -/

/-- The characters that a backslash and one letter stand for. -/
def escapes : List (Char × Char) :=
  [('0', '\x00'), ('a', '\x07'), ('b', '\x08'), ('t', '\t'), ('\t', '\t'), ('n', '\n'),
   ('v', '\x0b'), ('f', '\x0c'), ('r', '\r'), ('e', '\x1b'), (' ', ' '), ('\x22', '\x22'),
   ('\\', '\\'), ('/', '/'), ('N', '\u0085'), ('_', '\u00a0'), ('L', '\u2028'), ('P', '\u2029')]

/-- The number of hexadecimal digits behind a backslash and a letter. -/
def escapeWidths : List (Char × Nat) := [('x', 2), ('u', 4), ('U', 8)]

/-- The character with a number in hexadecimal digits, if it is one. -/
def charOfHex? (digits : List Char) : Option Char :=
  let n := digitsValue 16 digits
  if digits.all isHexDigit && n.isValidChar then some (Char.ofNat n) else none

/-- What an escape stands for, and the spots behind it.  A line break behind a
backslash stands for nothing, and neither do the blanks that follow. -/
def escaped? : List Spot → Option (List Char × List Spot)
  | [] => none
  | s :: rest =>
    if isBreak s.char then
      let gap := rest.takeWhile fun s => isBlank s.char || isBreak s.char
      some ((textAt gap).filter isBreak, rest.drop gap.length)
    else
      match escapes.lookup s.char, escapeWidths.lookup s.char with
      | some c, _ => some ([c], rest)
      | none, some width =>
        if rest.length < width then none
        else (charOfHex? (textAt (rest.take width))).map fun c => ([c], rest.drop width)
      | none, none => none

/-- The text up to the closing quote, in reverse in front of `read`, and the
spots behind it.  A mark of a document must not stand inside. -/
def quotedFrom (quote : Char) : (fuel : Nat) → (read : List Char) → List Spot →
    Option (List Char × List Spot)
  | 0, _, _ | _, _, [] => none
  | fuel + 1, read, s :: rest =>
    if isMark (s :: rest) then none
    else if isBlank s.char || isBreak s.char then
      let gap := (s :: rest).takeWhile fun s => isBlank s.char || isBreak s.char
      quotedFrom quote fuel ((folded gap).reverse ++ read) ((s :: rest).drop gap.length)
    else if s.char = quote then
      match quote, rest with
      | '\x27', next :: behind =>
        if next.char = '\x27' then quotedFrom quote fuel ('\x27' :: read) behind
        else some (read.reverse, rest)
      | _, _ => some (read.reverse, rest)
    else if quote = '\x22' && s.char = '\\' then
      match escaped? rest with
      | some (text, behind) => quotedFrom quote fuel (text.reverse ++ read) behind
      | none => none
    else quotedFrom quote fuel (s.char :: read) rest

/-- A text between quotes, from its opening quote on. -/
def quoted? : List Spot → Option (List Char × List Spot)
  | s :: rest =>
    if s.char = '\x27' || s.char = '\x22' then quotedFrom s.char (rest.length + 1) [] rest else none
  | [] => none

/-! ## Without quotes -/

/-- Where a scalar without quotes stands: between brackets, where brackets and
commas end it, or outside of them, where its later lines must stand at a column
of at least `indent`. -/
inductive Context where
  | bracketed
  | outside (indent : Nat)
deriving DecidableEq, Repr

def Context.isBracketed : Context → Bool
  | bracketed => true
  | outside _ => false

def isBracketOrComma (c : Char) : Bool := [',', '[', ']', '\x7b', '\x7d'].contains c

/-- Whether a scalar without quotes can start here. -/
def startsPlain (context : Context) : List Spot → Bool
  | [] => false
  | s :: rest =>
    let c := s.char
    if c = '-' then !endsWord rest
    else if c = '?' || c = ':' then !context.isBracketed && !endsWord rest
    else !(isBlank c || isBreak c || isBracketOrComma c ||
      ['#', '&', '*', '!', '|', '>', '\x27', '\x22', '%', '@', '\x60'].contains c)

def endsRun (context : Context) : List Spot → Bool
  | [] => true
  | s :: rest =>
    isBlank s.char || isBreak s.char ||
      (s.char = ':' &&
        (endsWord rest || (context.isBracketed && rest.head?.any (isBracketOrComma ·.char)))) ||
      (context.isBracketed && (isBracketOrComma s.char || s.char = '?'))

/-- The characters of one run, in reverse in front of `read`, and the spots
behind it. -/
def runFrom (context : Context) (read : List Char) : List Spot → List Char × List Spot
  | [] => (read, [])
  | s :: rest =>
    if endsRun context (s :: rest) then (read, s :: rest)
    else runFrom context (s.char :: read) rest

def goesOn (context : Context) : List Spot → Bool
  | [] => false
  | s :: rest =>
    s.char ≠ '#' && !isMark (s :: rest) && !endsRun context (s :: rest) &&
      match context with
      | .bracketed => true
      | .outside indent => indent ≤ s.column

/-- The runs of a scalar without quotes, with what stands for the gaps between
them, in reverse in front of `read`, and the spots behind it. -/
def plainFrom (context : Context) : (fuel : Nat) → (read : List Char) → List Spot →
    List Char × List Spot
  | 0, read, s => (read, s)
  | fuel + 1, read, s =>
    let (read, rest) := runFrom context read s
    let gap := rest.takeWhile fun s => s.char = ' ' || isBreak s.char
    let next := rest.drop gap.length
    if !gap.isEmpty && goesOn context next then
      plainFrom context fuel ((folded gap).reverse ++ read) next
    else (read, rest)

/-- The text of a scalar without quotes. -/
def plain? (context : Context) (s : List Spot) : Option (List Char × List Spot) :=
  if startsPlain context s then
    let (read, rest) := plainFrom context (s.length + 1) [] s
    some (read.reverse, rest)
  else none

/-! ## Scalars -/

/-- The value of the scalar that starts here, and the spots behind it. -/
def scalar? (context : Context) (s : List Spot) : Option (Datum × List Spot) :=
  match quoted? s with
  | some (text, rest) => some (.text (String.ofList text), rest)
  | none => do
    let (text, rest) ← plain? context s
    let value ← valueOf? text
    return (value, rest)

/-! ## Keys -/

inductive Key where
  | value (value : Datum)
  /-- The key `<<`, which takes over the entries of other mappings. -/
  | merge

/-- The key of a scalar without quotes; an equals sign stands for itself. -/
def keyOf? (s : List Char) : Option Key :=
  match String.ofList s with
  | "<<" => some .merge
  | "=" => some (.value (.text "="))
  | _ => (valueOf? s).map .value

/-- The key that starts here, and the spots behind it. -/
def key? (context : Context) (s : List Spot) : Option (Key × List Spot) :=
  match quoted? s with
  | some (text, rest) => some (.value (.text (String.ofList text)), rest)
  | none => do
    let (text, rest) ← plain? context s
    let key ← keyOf? text
    return (key, rest)

end KineticText.Yaml
