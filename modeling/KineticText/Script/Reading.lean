import KineticText.Diagnostic
import KineticText.Script.Segment
import KineticText.Script.Token
import KineticText.Tag.Reading

/-!
# Reading a script

Words gather in an open group until a tag closes it; the group and the tag
become a segment.  A rejected tag leaves the group open, a tag with an empty
group in front of it is left out, and words behind the last tag become a
segment without a tag.

In the program `ofTokens` is the loop of `MotionParser.parse`; `read` gives what
`parse` and `lint_text` return.
-/

namespace KineticText

/-- The segments of a script and the advice about its tags. -/
structure Script where
  segments : List Segment
  diagnostics : List Diagnostic
deriving DecidableEq, Repr

namespace Script

def segmentOf (group : List (List Char)) (tag : Option Tag) (index : Nat) : Segment where
  text := Text.unwords group
  index := index
  tag := tag

/-- The script of tokens that follow `tokenIndex` others, with `count`
segments closed so far and the words of `group` still open. -/
def ofTokensFrom (tokenIndex count : Nat) (group : List (List Char)) : List Token → Script
  | [] => ⟨if group.isEmpty then [] else [segmentOf group none count], []⟩
  | .word w :: rest => ofTokensFrom (tokenIndex + 1) count (group ++ [w]) rest
  | .tag raw :: rest =>
    match Tag.read raw with
    | .error e =>
      let script := ofTokensFrom (tokenIndex + 1) count group rest
      { script with diagnostics := .malformedTag raw tokenIndex e :: script.diagnostics }
    | .ok tag =>
      if group.isEmpty then
        let script := ofTokensFrom (tokenIndex + 1) count group rest
        { script with diagnostics := .orphanTag raw tokenIndex :: script.diagnostics }
      else
        let script := ofTokensFrom (tokenIndex + 1) (count + 1) [] rest
        { script with segments := segmentOf group (some tag) count :: script.segments }

def ofTokens (tokens : List Token) : Script := ofTokensFrom 0 0 [] tokens

def read (s : List Char) : Script := ofTokens (Token.scan s)

def textOf : Datum → Except Fault (List Char)
  | .text s => .ok s.toList
  | _ => .error .scriptKind

end Script

end KineticText
