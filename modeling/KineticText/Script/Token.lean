import KineticText.Tag.Bracket
import KineticText.Text.Blank

/-!
# Tokens of a script

A script is text with motion tags in it.  Its tokens are its bracketed texts
and its words; blank characters separate words, and brackets without a partner
are dropped.  `displayText` is what a reader sees: the script without tags and
brackets.

In the program `Token.scan` is `tokenize`, and `displayText` is `strip_tags`.
-/

namespace KineticText

/-- A word, or a tag as written. -/
inductive Token where
  | word (characters : List Char)
  | tag (raw : List Char)
deriving DecidableEq, Repr

namespace Token

def text : Token → List Char
  | word characters => characters
  | tag raw => raw

/-- The characters that words are made of. -/
def isWordChar (c : Char) : Bool := !Text.isBlank c && c ≠ '<' && c ≠ '>'

theorem length_dropWhile_le (p : Char → Bool) (s : List Char) :
    (s.dropWhile p).length ≤ s.length :=
  (List.dropWhile_suffix p).length_le

/-- The tokens of a script, from left to right. -/
def scan (s : List Char) : List Token :=
  match s with
  | [] => []
  | c :: rest =>
    if isWordChar c then
      word (c :: rest.takeWhile isWordChar) :: scan (rest.dropWhile isWordChar)
    else if c = '<' then
      match _h : Tag.untilClose? rest with
      | some (inner, tail) => tag ('<' :: inner ++ ['>']) :: scan tail
      | none => scan rest
    else scan rest
termination_by s.length
decreasing_by
  · have := length_dropWhile_le isWordChar rest
    simp only [List.length_cons]
    omega
  · have := Tag.length_lt_of_untilClose? _h
    simp only [List.length_cons]
    omega
  · simp
  · simp

end Token

/-! ## What a reader sees -/

namespace Script

def withoutTags (s : List Char) : List Char :=
  match s with
  | [] => []
  | c :: rest =>
    if c = '<' then
      match _h : Tag.untilClose? rest with
      | some (_, tail) => withoutTags tail
      | none => c :: withoutTags rest
    else c :: withoutTags rest
termination_by s.length
decreasing_by
  · have := Tag.length_lt_of_untilClose? _h
    simp only [List.length_cons]
    omega
  · simp
  · simp

/-- The script without bracketed texts and brackets, with single spaces
between words. -/
def displayText (s : List Char) : List Char :=
  Text.collapse ((withoutTags s).filter fun c => c ≠ '<' && c ≠ '>')

end Script

end KineticText
