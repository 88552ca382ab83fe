import KineticText.Yaml.Scalar

/-!
# Writing documents

Reports are YAML.  Mappings and lists are written as blocks.  The entries of a
mapping under a key are indented by two spaces, the dashes of a list under a
key stand at the column of the key.  A text stands without quotes where it
would be read back as the same text, else in single quotes where it can be
shown as it is, else in double quotes.  Lines are broken at single spaces
beyond column 80.
-/

namespace KineticText.Yaml

/-! ## The style of a text -/

inductive Style where
  | plain
  | singleQuoted
  | doubleQuoted
deriving DecidableEq, Repr

/-- Characters that are written as they are: the printable ones of ASCII and
the line feed. -/
def isSimple (c : Char) : Bool := c = '\n' || (' ' ≤ c && c ≤ '~')

/-- Whether a space and a line feed stand side by side. -/
def mixesGaps : List Char → Bool
  | a :: b :: rest => (a = ' ' && b = '\n') || (a = '\n' && b = ' ') || mixesGaps (b :: rest)
  | _ => false

/-- Whether a colon ends a word, or a number sign starts one behind the first. -/
def hasIndicator : List Char → Bool
  | [] => false
  | [c] => c = ':'
  | a :: b :: rest => (a = ':' && b = ' ') || (a = ' ' && b = '#') || hasIndicator (b :: rest)

/-- Whether the start of a text would be read as something other than a text. -/
def startsSpecial : List Char → Bool
  | '-' :: '-' :: '-' :: _ => true
  | '.' :: '.' :: '.' :: _ => true
  | c :: rest =>
    ['#', ',', '[', ']', '\x7b', '\x7d', '&', '*', '!', '|', '>', '\x27', '\x22', '%', '@',
      '\x60'].contains c ||
    (['?', ':', '-'].contains c && (rest.isEmpty || rest.head? = some ' '))
  | [] => false

def styleOf (s : List Char) : Style :=
  if !s.all isSimple || mixesGaps s then .doubleQuoted
  else if s.contains '\n' || s.head? = some ' ' || s.getLast? = some ' ' || startsSpecial s ||
      hasIndicator s || formOf s ≠ .text then .singleQuoted
  else .plain

/-! ## Lines -/

/-- The greatest column at which a space is kept. -/
def lineWidth : Nat := 80

def spaces (column : Nat) : List Char := List.replicate column ' '

def newLine (indent : Nat) : List Char := '\n' :: spaces indent

/-- The characters of a text from a column on, behind a character of it, with
lines broken at single spaces.  Between single quotes, a quote is doubled; a
line feed is written as an empty line. -/
def wrapped (quoted : Bool) (indent : Nat) : (column : Nat) → (before : Option Char) →
    List Char → List Char
  | _, _, [] => []
  | column, before, c :: rest =>
    if c = ' ' then
      let single := before.isSome && before ≠ some ' ' && !rest.isEmpty && rest.head? ≠ some ' '
      if single && lineWidth < column then
        newLine indent ++ wrapped quoted indent indent (some c) rest
      else c :: wrapped quoted indent (column + 1) (some c) rest
    else if c = '\n' then
      (if before = some '\n' then ['\n'] else ['\n', '\n']) ++
        (if rest.head? = some '\n' then [] else spaces indent) ++
        wrapped quoted indent indent (some c) rest
    else if quoted && c = '\x27' then c :: c :: wrapped quoted indent (column + 2) (some c) rest
    else c :: wrapped quoted indent (column + 1) (some c) rest

/-! ## Double quotes -/

/-- The characters that are written as a backslash and one letter. -/
def shortEscapes : List (Char × Char) :=
  [('\x00', '0'), ('\x07', 'a'), ('\x08', 'b'), ('\t', 't'), ('\n', 'n'), ('\x0b', 'v'),
   ('\x0c', 'f'), ('\r', 'r'), ('\x1b', 'e'), ('\x22', '\x22'), ('\\', '\\'), ('\u0085', 'N'),
   ('\u00a0', '_'), ('\u2028', 'L'), ('\u2029', 'P')]

def hexDigits (width n : Nat) : List Char := (Datum.hexDigits width n).map Char.toUpper

/-- What a character is written as, if it is not written as it is. -/
def escape? (c : Char) : Option (List Char) :=
  match shortEscapes.lookup c with
  | some letter => some ['\\', letter]
  | none =>
    if ' ' ≤ c && c ≤ '~' then none
    else if c.toNat ≤ 0xff then some ('\\' :: 'x' :: hexDigits 2 c.toNat)
    else if c.toNat ≤ 0xffff then some ('\\' :: 'u' :: hexDigits 4 c.toNat)
    else some ('\\' :: 'U' :: hexDigits 8 c.toNat)

/-- The mark in front of a space with which a line begins between double
quotes. -/
def spaceMark (next : Option Char) : List Char := if next = some ' ' then ['\\'] else []

/-- The characters of a text between double quotes, from a column on.  A line
is broken in front of a space, and in front of and behind an escape, but not
beside the first or the last character; `afterEscape` says whether an escape
stands in front. -/
def escapedFrom (indent : Nat) : (column : Nat) → (isFirst afterEscape : Bool) →
    List Char → List Char
  | _, _, _, [] => []
  | column, isFirst, afterEscape, c :: rest =>
    let inner := !isFirst && !rest.isEmpty
    match escape? c with
    | some written =>
      let column := column + written.length
      if inner && lineWidth + 1 < column then
        let mark := spaceMark rest.head?
        written ++ '\\' :: newLine indent ++ mark ++
          escapedFrom indent (indent + mark.length) false true rest
      else written ++ escapedFrom indent column false true rest
    | none =>
      if inner && (c = ' ' || afterEscape) && lineWidth < column then
        let mark := spaceMark (some c)
        '\\' :: newLine indent ++ mark ++
          c :: escapedFrom indent (indent + mark.length + 1) false false rest
      else c :: escapedFrom indent (column + 1) false false rest

/-! ## Scalars -/

/-- A double: a power of ten follows a number with a point. -/
def realText (x : Binary64) : List Char :=
  match x with
  | .nan => ".nan".toList
  | .infinity negative => (if negative then "-.inf" else ".inf").toList
  | x =>
    let digits := x.text
    if digits.contains '.' || !digits.contains 'e' then digits
    else digits.takeWhile (· ≠ 'e') ++ '.' :: '0' :: digits.dropWhile (· ≠ 'e')

/-- A text from a column on, whose later lines begin at `indent`. -/
def textFrom (indent column : Nat) (s : List Char) : List Char :=
  match styleOf s with
  | .plain => wrapped false indent column none s
  | .singleQuoted => '\x27' :: wrapped true indent (column + 1) none s ++ ['\x27']
  | .doubleQuoted => '\x22' :: escapedFrom indent (column + 1) true false s ++ ['\x22']

/-- A scalar from a column on; lists and mappings count as empty. -/
def scalarFrom (indent column : Nat) : Datum → List Char
  | .null => "null".toList
  | .bool value => (if value then "true" else "false").toList
  | .int value => (toString value).toList
  | .real value => realText value
  | .decimal value => value.text
  | .date written _ | .impossible written => written.toList
  | .text value => textFrom indent column value.toList
  | .list _ => "[]".toList
  | .mapping _ => ['\x7b', '\x7d']

/-! ## Blocks -/

mutual

/-- A value behind a key or a dash that ends at a column, in a block at
`indent`. -/
def behind (indent column : Nat) (isKey : Bool) : Datum → List Char
  | .mapping (entry :: rest) =>
    let inner := indent + 2
    (if isKey then newLine inner else [' ']) ++
      (spaces inner).intercalate (entryTexts inner (entry :: rest))
  | .list (item :: rest) =>
    let inner := if isKey then indent else indent + 2
    (if isKey then newLine inner else [' ']) ++
      (spaces inner).intercalate (itemTexts inner (item :: rest))
  | value => ' ' :: scalarFrom (indent + 2) (column + 1) value ++ ['\n']

/-- The entries of a mapping whose keys stand at `indent`. -/
def entryTexts (indent : Nat) : List (Datum × Datum) → List (List Char)
  | [] => []
  | (key, value) :: rest =>
    let key := scalarFrom indent indent key
    (key ++ ':' :: behind indent (indent + key.length + 1) true value) :: entryTexts indent rest

/-- The items of a list whose dashes stand at `indent`. -/
def itemTexts (indent : Nat) : List Datum → List (List Char)
  | [] => []
  | item :: rest => ('-' :: behind indent (indent + 1) false item) :: itemTexts indent rest

end

def write : Datum → List Char
  | .mapping (entry :: rest) => (entryTexts 0 (entry :: rest)).flatten
  | .list (item :: rest) => (itemTexts 0 (item :: rest)).flatten
  | value => scalarFrom 0 0 value ++ ['\n']

end KineticText.Yaml
