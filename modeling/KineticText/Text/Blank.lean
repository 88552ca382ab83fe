/-!
# Blank characters

Blank characters separate words.  `words` cuts a text into its maximal runs of
other characters, `collapse` writes the words with single spaces between them,
and `trim` removes the characters of a class from both ends.

In the program `collapse` is `normalize_whitespace`.
-/

namespace KineticText.Text

/-- The characters with the white-space property, and the four information
separators `U+001C` to `U+001F`. -/
def isBlank (c : Char) : Bool :=
  let n := c.toNat
  (0x9 ≤ n && n ≤ 0xd) || (0x1c ≤ n && n ≤ 0x20) || n = 0x85 || n = 0xa0 || n = 0x1680 ||
    (0x2000 ≤ n && n ≤ 0x200a) || n = 0x2028 || n = 0x2029 || n = 0x202f || n = 0x205f ||
    n = 0x3000

/-- The blank characters that may stand around a number: all but the
information separators. -/
def isPadding (c : Char) : Bool := isBlank c && !(0x1c ≤ c.toNat && c.toNat ≤ 0x1f)

/-- The text without the characters of a class at its two ends. -/
def trim (p : Char → Bool) (s : List Char) : List Char :=
  ((s.dropWhile p).reverse.dropWhile p).reverse

def extendFirst (c : Char) : List (List Char) → List (List Char)
  | [] => [[c]]
  | w :: ws => (c :: w) :: ws

/-- The maximal runs of characters that are not blank, in order. -/
def words : List Char → List (List Char)
  | [] => []
  | c :: rest =>
    if isBlank c then words rest
    else
      match rest with
      | [] => [[c]]
      | next :: _ => if isBlank next then [c] :: words rest else extendFirst c (words rest)

/-- Words written with one space between neighbours. -/
def unwords (ws : List (List Char)) : List Char := [' '].intercalate ws

/-- The text with its blank runs turned into single spaces, and none at its
ends. -/
def collapse (s : List Char) : List Char := unwords (words s)

end KineticText.Text
