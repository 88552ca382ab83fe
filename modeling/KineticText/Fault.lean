import KineticText.Datum
import KineticText.Tag.Error

/-!
# Faults and failures

A `Fault` is a mistake in the input that this library names and words itself.
A `Failure` is any way in which an operation ends without a result: a fault,
or a value that could not be used at all.
-/

namespace KineticText

/-- Mistakes in the input. -/
inductive Fault where
  | tag (error : TagError)
  | required (name : String)
  /-- A value of another kind stands in place of a number. -/
  | notNumber (name : String)
  /-- A text does not spell a number. -/
  | notNumeral (name : String) (written : String)
  | notFinite (name : String)
  | gapRange
  | timeIsBool
  | timeKind
  | timeNotFinite (value : Binary64)
  | scriptKind
  | canvasSize
  | negativeSpacing
  | ringStep
  | ringSamples
  | unknownPreset (shown : List Char)
  | noSettingsFile (path : String)
  | settingsSize
  | settingsKind
  | settingsVersion
  | canvasShape
  | layoutKind
  | layoutKey (shown : List Char)
  | samplesKind
  | seedKind
deriving Repr

def Fault.message : Fault → String
  | tag error => error.message
  | required name => name ++ " is required"
  | notNumber name => name ++ " must be a number"
  | notNumeral name written => name ++ " must be a number, got '" ++ written ++ "'"
  | notFinite name => name ++ " must be finite"
  | gapRange => "gap must be between -2.0 and 5.0 seconds"
  | timeIsBool => "time values must be numbers, not booleans"
  | timeKind => "time values must be int or float"
  | timeNotFinite value => "time value must be finite: " ++ String.ofList value.text
  | scriptKind => "motion text must be a string"
  | canvasSize => "canvas width and height must be positive"
  | negativeSpacing => "layout margin and spacing must not be negative"
  | ringStep => "layout spiral_step must be positive"
  | ringSamples => "layout spiral_samples must be at least 1"
  | unknownPreset shown => "unknown motion preset: " ++ String.ofList shown
  | noSettingsFile path => "file not found: " ++ path
  | settingsSize => "settings file is larger than 1MB"
  | settingsKind => "settings yaml must be a mapping at the top level"
  | settingsVersion => "motion must be set to 1 for settings files"
  | canvasShape => "canvas must be [width, height]"
  | layoutKind => "layout must be a mapping"
  | layoutKey shown => "unknown layout key: layout." ++ String.ofList shown
  | samplesKind => "layout.spiral_samples must be an integer"
  | seedKind => "seed must be an integer"

/-- The ways in which an operation ends without a result. -/
inductive Failure where
  | fault (fault : Fault)
  | tooLarge
  /-- A value, or the number of values, does not fit the operation. -/
  | misfit
  | malformedFile
  /-- A settings file names a number or a date that does not exist, or a value
  that is to be shown holds a number of too many digits. -/
  | impossibleValue
  | noTextFile (path : String)
  | usage
  /-- A ring has no number of places, or too many. -/
  | ringCount
  | endlessSearch
deriving Repr

/-- An operation without a state does nothing to one, with a result or without. -/
instance exceptLift {ε σ : Type} : MonadLift (Except ε) (EStateM ε σ) := ⟨MonadExcept.ofExcept⟩

end KineticText
