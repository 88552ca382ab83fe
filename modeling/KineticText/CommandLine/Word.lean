import KineticText.Text.DecimalDigit

/-!
# Words of a command line

A command line names parameters by a long name behind two dashes, which may be
shortened as long as it is unique, or by one letter behind a dash.  A value
stands behind an equals sign, directly behind the letter, or as the next word.
Behind the letter of a parameter without a value, or the equals sign after it,
further letters may follow.
-/

namespace KineticText.CommandLine

/-! ## Parameters -/

inductive Parameter where
  | text
  | textFile
  | settingsFile
  | preset
  | gap
  | width
  | height
  | seed
  | time
  | examples
  | quiet
  | help
deriving DecidableEq, Repr

namespace Parameter

def all : List Parameter :=
  [text, textFile, settingsFile, preset, gap, width, height, seed, time, examples, quiet, help]

def name : Parameter → String
  | text => "text"
  | textFile => "input"
  | settingsFile => "settings"
  | preset => "preset"
  | gap => "gap"
  | width => "width"
  | height => "height"
  | seed => "seed"
  | time => "at"
  | examples => "examples"
  | quiet => "quiet"
  | help => "help"

def letter? : Parameter → Option Char
  | text => some 't'
  | textFile => some 'i'
  | settingsFile => some 's'
  | preset => some 'p'
  | gap => some 'g'
  | width => some 'W'
  | height => some 'H'
  | seed => none
  | time => some 'a'
  | examples => some 'e'
  | quiet => some 'q'
  | help => some 'h'

def takesValue : Parameter → Bool
  | examples | quiet | help => false
  | _ => true

def ofLetter? (c : Char) : Option Parameter := all.find? fun p => p.letter? = some c

/-- The parameters whose names begin with a text; a full name names only one. -/
def named (written : List Char) : List Parameter :=
  match all.find? fun p => p.name.toList = written with
  | some p => [p]
  | none => all.filter fun p => written.isPrefixOf p.name.toList

end Parameter

/-! ## Words -/

inductive Word where
  | value (text : List Char)
  /-- A parameter, perhaps with a value in the same word. -/
  | parameter (parameter : Parameter) (attached : Option (List Char))
deriving DecidableEq, Repr

/-- Whether a text is a negative number without an exponent: a dash and digits,
or a dash and digits around or behind a point.  A line feed may follow. -/
def isNegativeNumber (s : List Char) : Bool :=
  let isDigit := fun c => (Text.digitValue? c).isSome
  let body := if s.getLast? = some '\n' then s.dropLast else s
  match body with
  | '-' :: digits =>
    match digits.dropWhile isDigit with
    | [] => !digits.isEmpty
    | '.' :: fraction => !fraction.isEmpty && fraction.all isDigit
    | _ => false
  | _ => false

/-- The parameters of letters behind one dash.  All behind the first letter of a
parameter with a value is its value. -/
def ofLetters? : List Char → Option (List Word)
  | [] => none
  | c :: rest =>
    match Parameter.ofLetter? c, rest with
    | none, _ => none
    | some p, [] => some [.parameter p none]
    | some p, next :: more =>
      if p.takesValue then some [.parameter p (some (next :: more))]
      else (ofLetters? (next :: more)).map (.parameter p none :: ·)

/-- The parameters of a letter and what is written behind an equals sign after
it: the value, or further letters where there is none. -/
def ofLetterWith? (p : Parameter) (attached : List Char) : Option (List Word) :=
  if p.takesValue then some [.parameter p (some attached)]
  else (ofLetters? attached).map (.parameter p none :: ·)

/-- The words that one argument stands for.  An argument that starts with a
dash and names no parameter is a value if it holds a space; with one dash, also
if it is a negative number.  Two dashes alone would end the parameters, and only
values, for which there is no place, could follow. -/
def Word.ofArgument? (argument : List Char) : Option (List Word) :=
  match argument with
  | ['-', '-'] => none
  | '-' :: '-' :: body =>
    match Parameter.named (body.takeWhile (· ≠ '=')), body.dropWhile (· ≠ '=') with
    | [p], '=' :: attached => some [.parameter p (some attached)]
    | [p], _ => some [.parameter p none]
    | [], _ => if argument.contains ' ' then some [.value argument] else none
    | _, _ => none
  | '-' :: c :: rest =>
    match Parameter.ofLetter? c, rest with
    | some p, '=' :: attached => ofLetterWith? p attached
    | some _, _ => ofLetters? (c :: rest)
    | none, _ =>
      if isNegativeNumber argument || argument.contains ' ' then some [.value argument] else none
  | other => some [.value other]

/-- The settings that words stand for, in order: parameters with their values,
if they take one.  A value without a parameter, a parameter without its value,
and a value for one that takes none are refused. -/
def pairs? : List Word → Option (List (Parameter × List Char))
  | [] => some []
  | .value _ :: _ => none
  | .parameter p attached :: rest =>
    match p.takesValue, attached, rest with
    | false, none, rest => (pairs? rest).map ((p, []) :: ·)
    | false, some _, _ => none
    | true, some value, rest => (pairs? rest).map ((p, value) :: ·)
    | true, none, .value value :: rest => (pairs? rest).map ((p, value) :: ·)
    | true, none, _ => none

end KineticText.CommandLine
