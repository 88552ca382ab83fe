import KineticText.Yaml.ScalarReading

/-!
# Reading documents

The part of YAML 1.1 that settings files use: mappings and lists, scalars and
comments.  Mappings and lists stand in brackets on any lines, or as blocks
whose entries begin at one column.  `read?` gives the value of a text that is
one well-formed document.  Each step of the reader takes the spots from its
first token on and gives the spots behind what it read.
-/

namespace KineticText.Yaml

/-! ## Keys -/

/-- The number behind a key, where keys of one number are one key. -/
def keyNumber? : Datum → Option Binary64
  | .bool b => some (.ofInt (if b then 1 else 0))
  | .int i => some (.ofInt i)
  | .real x => some x
  | _ => none

def sameKey (a b : Datum) : Bool :=
  match a, b with
  | .null, .null => true
  | .text s, .text t => s == t
  | .date s _, .date t _ => s == t
  | .int i, .int j => i == j
  | a, b =>
    match keyNumber? a, keyNumber? b with
    | some x, some y => x.sameNumber y
    | _, _ => false

/-- The entries with one more: a key that is there keeps its place and gets the
new value. -/
def insertEntry (entries : List (Datum × Datum)) (entry : Datum × Datum) : List (Datum × Datum) :=
  if entries.any (sameKey entry.1 ·.1) then
    entries.map fun old => if sameKey entry.1 old.1 then (old.1, entry.2) else old
  else entries ++ [entry]

def entriesOf? : Datum → Option (List (Datum × Datum))
  | .mapping entries => some entries
  | _ => none

/-- The entries that an entry takes over: those of a mapping, or of a list of
mappings, where an earlier mapping goes before a later one. -/
def takenOver? : Key × Datum → Option (List (Datum × Datum))
  | (.merge, .list items) => do
    let mappings ← items.mapM entriesOf?
    return mappings.reverse.flatten
  | (.merge, value) => entriesOf? value
  | (.value _, _) => some []

def own? : Key × Datum → Option (Datum × Datum)
  | (.value key, value) => some (key, value)
  | (.merge, _) => none

/-- The mapping of entries as they are written.  What it takes over stands first,
and gives way to its own entries. -/
def mappingOf? (entries : List (Key × Datum)) : Option Datum := do
  let taken ← entries.mapM takenOver?
  return .mapping ((taken.flatten ++ entries.filterMap own?).foldl insertEntry [])

def maxKeyLength : Nat := 1024

/-- The spots behind the colon that makes a scalar into a key; it stands on the
line on which the key starts. -/
def behindColon? (start : Spot) (s : List Spot) : Option (List Spot) :=
  match s.dropWhile (·.char = ' ') with
  | colon :: rest =>
    if colon.char = ':' && colon.line = start.line && colon.column ≤ start.column + maxKeyLength then
      some rest
    else none
  | [] => none

/-- A key of a block, and the spots behind its colon. -/
def blockKey? (indent : Nat) (s : List Spot) : Option (Key × List Spot) := do
  let start ← s.head?
  let (key, rest) ← key? (.outside indent) s
  let rest ← behindColon? start rest
  if endsWord rest then some (key, rest) else none

/-- A key in brackets, and the spots behind it. -/
def flowKey? (s : List Spot) : Option (Key × List Spot) :=
  if isMark s then none else key? .bracketed s

/-- A key in brackets with a colon, and the spots from its value on. -/
def keyWithColon? (s : List Spot) : Option (Key × List Spot) := do
  let start ← s.head?
  let (key, rest) ← flowKey? s
  let rest ← behindColon? start rest
  return (key, skip rest)

/-! ## In brackets -/

mutual

def flowValue? : (fuel : Nat) → List Spot → Option (Datum × List Spot)
  | 0, _ | _, [] => none
  | fuel + 1, s :: rest =>
    if isMark (s :: rest) then none
    else if s.char = '[' then do
      let (items, rest) ← flowItems? fuel (skip rest)
      return (.list items, rest)
    else if s.char = '\x7b' then do
      let (entries, rest) ← flowEntries? fuel (skip rest)
      let mapping ← mappingOf? entries
      return (mapping, rest)
    else scalar? .bracketed (s :: rest)

/-- The items of a list, up to its bracket.  A pair among them is a mapping of
one entry. -/
def flowItems? : (fuel : Nat) → List Spot → Option (List Datum × List Spot)
  | 0, _ | _, [] => none
  | fuel + 1, s :: rest =>
    if s.char = ']' then some ([], rest)
    else do
      let (item, rest) ← flowItem? fuel (s :: rest)
      match skip rest with
      | [] => none
      | next :: rest =>
        if next.char = ']' then return ([item], rest)
        else if next.char = ',' then
          let (items, rest) ← flowItems? fuel (skip rest)
          return (item :: items, rest)
        else none

def flowItem? : (fuel : Nat) → List Spot → Option (Datum × List Spot)
  | 0, _ => none
  | fuel + 1, s =>
    match keyWithColon? s with
    | some (key, rest) => do
      let (value, rest) ← entryValue? fuel rest
      let item ← mappingOf? [(key, value)]
      return (item, rest)
    | none => flowValue? fuel s

/-- The entries of a mapping, up to its bracket.  A key alone has no value. -/
def flowEntries? : (fuel : Nat) → List Spot → Option (List (Key × Datum) × List Spot)
  | 0, _ | _, [] => none
  | fuel + 1, s :: rest =>
    if s.char = '\x7d' then some ([], rest)
    else do
      let (entry, rest) ← flowEntry? fuel (s :: rest)
      match skip rest with
      | [] => none
      | next :: rest =>
        if next.char = '\x7d' then return ([entry], rest)
        else if next.char = ',' then
          let (entries, rest) ← flowEntries? fuel (skip rest)
          return (entry :: entries, rest)
        else none

def flowEntry? : (fuel : Nat) → List Spot → Option ((Key × Datum) × List Spot)
  | 0, _ => none
  | fuel + 1, s =>
    match keyWithColon? s with
    | some (key, rest) => do
      let (value, rest) ← entryValue? fuel rest
      return ((key, value), rest)
    | none => do
      let (key, rest) ← flowKey? s
      return ((key, .null), rest)

/-- The value of an entry, which may be missing. -/
def entryValue? : (fuel : Nat) → List Spot → Option (Datum × List Spot)
  | 0, _ => none
  | fuel + 1, s =>
    if s.head?.any fun s => s.char = ',' || s.char = ']' || s.char = '\x7d' then some (.null, s)
    else flowValue? fuel s

end

/-! ## Blocks -/

/-- Whether the next entry of a block at a column stands here. -/
def isEntryAt (column : Nat) (s : List Spot) : Bool :=
  s.head?.any (fun s => s.leading && s.column = column) && !isMark s

mutual

/-- A value outside of brackets.  Its later lines stand at a column of at least
`indent`; only where `blockAllowed` can it be a block. -/
def blockValue? : (fuel : Nat) → (indent : Nat) → (blockAllowed : Bool) → List Spot →
    Option (Datum × List Spot)
  | 0, _, _, _ | _, _, _, [] => none
  | fuel + 1, indent, blockAllowed, s :: rest =>
    if blockAllowed && isIndicator '-' (s :: rest) then do
      let (items, rest) ← blockItems? fuel s.column (s :: rest)
      return (.list items, rest)
    else if blockAllowed && (blockKey? indent (s :: rest)).isSome then do
      let (entries, rest) ← blockEntries? fuel s.column (s :: rest)
      let mapping ← mappingOf? entries
      return (mapping, rest)
    else if s.char = '[' || s.char = '\x7b' then flowValue? fuel (s :: rest)
    else scalar? (.outside indent) (s :: rest)

/-- The items of a list whose dashes stand at a column. -/
def blockItems? : (fuel : Nat) → (column : Nat) → List Spot → Option (List Datum × List Spot)
  | 0, _, _ => none
  | fuel + 1, column, s =>
    if isIndicator '-' s then do
      let (item, rest) ← nested? fuel column false (skip s.tail)
      let next := skip rest
      if isEntryAt column next && isIndicator '-' next then
        let (items, rest) ← blockItems? fuel column next
        return (item :: items, rest)
      else return ([item], next)
    else none

/-- The entries of a mapping whose keys stand at a column. -/
def blockEntries? : (fuel : Nat) → (column : Nat) → List Spot →
    Option (List (Key × Datum) × List Spot)
  | 0, _, _ => none
  | fuel + 1, column, s => do
    let (key, rest) ← blockKey? (column + 1) s
    let (value, rest) ← nested? fuel column true (skip rest)
    let next := skip rest
    if isEntryAt column next then
      let (entries, rest) ← blockEntries? fuel column next
      return ((key, value) :: entries, rest)
    else return ([(key, value)], next)

/-- The value of an entry of a block at a column, which may be missing.  Behind
a key a block starts on a line of its own, and the dashes of a list may stand
at the column of the key. -/
def nested? : (fuel : Nat) → (column : Nat) → (behindKey : Bool) → List Spot →
    Option (Datum × List Spot)
  | 0, _, _, _ => none
  | _, _, _, [] => some (.null, [])
  | fuel + 1, column, behindKey, s :: rest =>
    if isMark (s :: rest) then some (.null, s :: rest)
    else if column < s.column then
      blockValue? fuel (column + 1) (s.leading || !behindKey) (s :: rest)
    else if behindKey && s.column = column && isIndicator '-' (s :: rest) then do
      let (items, rest) ← blockItems? fuel column (s :: rest)
      return (.list items, rest)
    else some (.null, s :: rest)

end

/-! ## Documents -/

/-- Whether nothing but marks of the end of a document follows. -/
def isOver : (fuel : Nat) → List Spot → Bool
  | 0, s => s.isEmpty
  | fuel + 1, s => s.isEmpty || (isTriple '.' s && isOver fuel (skip (s.drop 3)))

/-- The value of a text that is one well-formed document.  An empty document
has no value. -/
def read? (text : List Char) : Option Datum :=
  if text.all isAllowed then do
    let text := if text.head? = some byteOrderMark then text.tail else text
    let start := skip (spots (unifyBreaks text))
    let marked := isTriple '-' start
    let body := if marked then skip (start.drop 3) else start
    let fuel := 4 * body.length + 4
    let (value, rest) ←
      if body.isEmpty || (marked && isMark body) then some (.null, body)
      else if isMark body then none
      else blockValue? fuel 0 (body.head?.any Spot.leading) body
    if isOver rest.length (skip rest) then some value else none
  else none

end KineticText.Yaml
