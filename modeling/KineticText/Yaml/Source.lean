/-!
# Documents as characters with places

Indentation has a meaning in a document, so a reader needs to know where each
character stands.  `spots` gives every character its place; `skip` passes over
what stands between two tokens, which are spaces, line breaks and comments.
-/

namespace KineticText.Yaml

/-! ## Characters -/

/-- Line breaks, after `unifyBreaks`. -/
def isBreak (c : Char) : Bool := c = '\n' || c = '\u2028' || c = '\u2029'

def isBlank (c : Char) : Bool := c = ' ' || c = '\t'

/-- The characters that a document may hold. -/
def isAllowed (c : Char) : Bool :=
  let n := c.toNat
  n = 0x09 || n = 0x0a || n = 0x0d || (0x20 ≤ n && n ≤ 0x7e) || n = 0x85 ||
    (0xa0 ≤ n && n ≤ 0xd7ff) || (0xe000 ≤ n && n ≤ 0xfffd) || 0x10000 ≤ n

def byteOrderMark : Char := '\ufeff'

/-- The text with a line feed for the break that is written as a next-line
character. -/
def unifyBreaks (s : List Char) : List Char := s.map fun c => if c = '\u0085' then '\n' else c

/-! ## Places -/

structure Spot where
  char : Char
  line : Nat
  column : Nat
  /-- Only spaces stand in front of the character on its line. -/
  leading : Bool
deriving DecidableEq, Repr

/-- The spots of a text that goes on at a place, behind those of `before` in
reverse.  A byte order mark takes no column. -/
def spotsFrom (before : List Spot) (line column : Nat) (leading : Bool) : List Char → List Spot
  | [] => before.reverse
  | c :: rest =>
    let before := ⟨c, line, column, leading⟩ :: before
    if isBreak c then spotsFrom before (line + 1) 0 true rest
    else if c = byteOrderMark then spotsFrom before line column false rest
    else spotsFrom before line (column + 1) (leading && c = ' ') rest

def spots (s : List Char) : List Spot := spotsFrom [] 0 0 true s

def textAt (s : List Spot) : List Char := s.map Spot.char

/-! ## Looking ahead -/

/-- Whether a word ends here: at a blank, at a line break, or at the end. -/
def endsWord : List Spot → Bool
  | [] => true
  | s :: _ => isBlank s.char || isBreak s.char

/-- Whether an indicator stands here as a word of its own. -/
def isIndicator (c : Char) : List Spot → Bool
  | [] => false
  | s :: rest => s.char = c && endsWord rest

/-- Whether three equal characters stand here as a word of their own at the
start of a line. -/
def isTriple (c : Char) : List Spot → Bool
  | a :: b :: d :: rest =>
    a.column = 0 && a.char = c && b.char = c && d.char = c && endsWord rest
  | _ => false

/-- Whether a document starts or ends here by a mark. -/
def isMark (s : List Spot) : Bool := isTriple '-' s || isTriple '.' s

/-! ## Between tokens -/

/-- The spots behind spaces, line breaks and comments; `inComment` says whether
the first spot is part of a comment. -/
def skipFrom (inComment : Bool) : List Spot → List Spot
  | [] => []
  | s :: rest =>
    if isBreak s.char then skipFrom false rest
    else if inComment || s.char = ' ' then skipFrom inComment rest
    else if s.char = '#' then skipFrom true rest
    else s :: rest

/-- The spots behind spaces, line breaks and comments. -/
def skip (s : List Spot) : List Spot := skipFrom false s

/-- What stands for blanks and line breaks inside a scalar: blanks stand for
themselves; a single line break for a space; of several line breaks the first
is dropped. -/
def folded (gap : List Spot) : List Char :=
  match (textAt gap).filter isBreak with
  | [] => textAt gap
  | c :: more =>
    if c ≠ '\n' then c :: more
    else if more.isEmpty then [' ']
    else more

end KineticText.Yaml
