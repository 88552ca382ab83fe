import KineticText.Tag.Error

/-!
# Diagnostics

Advice for the author of a script.  A diagnostic never stops anything: a tag
that cannot be used is left out, and a text without a free place is put in the
middle of the canvas.

In the program the three kinds are made by `malformed_tag`, `orphan_tag` and
`layout_overflow`, and `line` is `format_diagnostic`.
-/

namespace KineticText

/-- Advice, with the field, the token and the place it is about. -/
structure Diagnostic where
  kind : String
  message : String
  field : Option String := none
  token : Option String := none
  tokenIndex : Option Int := none
deriving DecidableEq, Repr

namespace Diagnostic

def malformedTag (token : List Char) (index : Nat) (error : TagError) : Diagnostic where
  kind := "malformed_tag"
  message := error.message
  field := some error.field
  token := some (String.ofList token)
  tokenIndex := some index

/-- A tag with no text in front of it. -/
def orphanTag (token : List Char) (index : Nat) : Diagnostic where
  kind := "orphan_tag"
  message := "Motion tag " ++ String.ofList token ++ " has no preceding text and was ignored"
  token := some (String.ofList token)
  tokenIndex := some index

def layoutOverflow (text : List Char) (index : Nat) : Diagnostic where
  kind := "layout_overflow"
  message := "No free position for segment " ++ toString index ++ " '" ++ String.ofList text ++
    "', placed at canvas center"
  token := some (String.ofList text)

def line (d : Diagnostic) : String :=
  let location :=
    match d.tokenIndex with
    | some index => "token " ++ toString index ++ ": "
    | none => ""
  d.kind ++ ": " ++ location ++ d.message

end Diagnostic

end KineticText
