/-!
# Why a tag is rejected

A tag holds three numbers and two directions.  `TagError` says which of them
is wrong and with what text; `TagError.message` is the wording shown to the
author of the text.

In the program `TagError` is `TagValidationError`, and `message` puts together
what `_range_message` and `_direction_message` say.
-/

namespace KineticText

/-! ## The fields of a tag -/

/-- The three times of a tag, in seconds. -/
inductive NumberField where
  | entrySpeed
  | displayDuration
  | exitSpeed
deriving DecidableEq, Repr

/-- The two directions of a tag. -/
inductive DirectionField where
  | entry
  | exit
deriving DecidableEq, Repr

namespace NumberField

def key : NumberField → String
  | entrySpeed => "entry_speed"
  | displayDuration => "display_duration"
  | exitSpeed => "exit_speed"

def label : NumberField → String
  | entrySpeed => "entry speed"
  | displayDuration => "display duration"
  | exitSpeed => "exit speed"

/-- The longest time allowed, in seconds. -/
def limit : NumberField → Nat
  | entrySpeed => 10
  | displayDuration => 30
  | exitSpeed => 10

end NumberField

namespace DirectionField

def key : DirectionField → String
  | entry => "entry_direction"
  | exit => "exit_direction"

def label : DirectionField → String
  | entry => "entry direction"
  | exit => "exit direction"

end DirectionField

/-! ## Rejections -/

/-- The reasons to reject a tag. -/
inductive TagError where
  | notText (shown : List Char)
  | empty
  /-- A number is missing, malformed or out of range. -/
  | number (field : NumberField) (written : List Char)
  /-- Something else stands in place of a direction. -/
  | direction (field : DirectionField) (written : List Char)
  /-- Text is left behind the last number. -/
  | trailing (rest : List Char)
deriving DecidableEq, Repr

namespace TagError

/-- The key of the wrong field; `syntax` when the tag as a whole is wrong. -/
def field : TagError → String
  | number field _ => field.key
  | direction field _ => field.key
  | _ => "syntax"

def value : TagError → List Char
  | notText shown => shown
  | empty => []
  | number _ written => written
  | direction _ written => written
  | trailing rest => rest

def help : String :=
  "Use format <[EntrySpeed][EntryDir][Duration][ExitDir][ExitSpeed]> like <0.3F1.2R0.9>"

def message : TagError → String
  | notText _ => "Invalid motion syntax. " ++ help
  | empty => "Empty motion tag. " ++ help
  | number field written =>
    "Invalid " ++ field.label ++ " '" ++ String.ofList written ++
      "'. Use a positive number (0.1 to " ++ toString field.limit ++ " seconds)"
  | direction field written =>
    "Invalid " ++ field.label ++ " '" ++ String.ofList written ++ "'. Use L, R, F, or B"
  | trailing rest => "Unexpected text '" ++ String.ofList rest ++ "' after exit speed. " ++ help

end TagError

end KineticText
