import KineticText.Composition
import KineticText.Text.LineFeed

/-!
# Settings

Settings collect what a composition needs besides its text: gap, canvas, seed.
They start from a preset, or from the data of a settings file, which is a
document of one mapping.  Settings hold values as given; making the canvas and
composing check them.

In the program `Settings` are `MotionSettings`, `ofPreset` is `from_preset`,
`readGap` is `parse_gap`, `ofFile` and `ofData` are the `load` of `SettingsLoader`,
`canvas` is `layout_config`, and `compose` is the `compile` of `MotionCompiler`.
-/

namespace KineticText

/-- What a composition needs besides its text. -/
structure Settings where
  gap : Datum := .real 0
  /-- Width and height of the canvas. -/
  size : Datum × Datum := Canvas.usualSize
  /-- Other numbers of the canvas, a mapping from their names. -/
  canvasNumbers : Datum := .mapping []
  seed : Datum := .null
  preset : Datum := .text "default"
deriving Repr

namespace Settings

/-- The settings with their gap checked, and with an empty value in place of the
canvas numbers standing for none. -/
def check (s : Settings) : Except Failure Settings := do
  let gap ← s.gap.readGap
  let canvasNumbers ← match s.canvasNumbers with
    | .mapping entries => pure (.mapping entries)
    | v => if v.isEmpty then pure (.mapping []) else throw .misfit
  return { s with gap := .real gap, canvasNumbers }

def named? : Datum × Datum → Option (String × Datum)
  | (.text key, value) => some (key, value)
  | _ => none

def canvas (s : Settings) : Except Failure Canvas :=
  match s.canvasNumbers with
  | .mapping entries =>
    match entries.mapM named? with
    | some others => Canvas.ofSize s.size.1 s.size.2 others
    | none => .error .misfit
  | _ => .error .misfit

/-- The composition of a script under the settings.  Without a seed, draws
come from that of `fallback`. -/
def compose [Trigonometry] (s : Settings) (text : Datum) (fallback : Int) : Except Failure Composition := do
  let canvas ← s.canvas
  let generator ← Generator.ofDatum s.seed fallback
  let (composition, _) ← Composition.compose text s.gap canvas generator
  return composition

/-! ## Presets -/

def presets : List (String × Binary64) :=
  [("default", 0), ("subtle", 0.2), ("dynamic", 0.1), ("dramatic", -0.1)]

/-- The failure of a value that the message of a fault shows. -/
def refusal (v : Datum) (fault : List Char → Fault) : Failure :=
  if v.hasDisplay then .fault (fault v.display) else .impossibleValue

def ofPreset (name : Datum) : Except Failure Settings :=
  match name with
  | .list _ | .mapping _ => .error .misfit
  | .text s =>
    match presets.lookup s with
    | some gap => .ok { gap := .real gap, preset := name }
    | none => .error (.fault (.unknownPreset s.toList))
  | v => .error (refusal v .unknownPreset)

/-! ## Settings from data -/

/-- Whether a value is the version of the settings format, the number one;
a truth value counts as a number. -/
def isVersion : Datum → Bool
  | .int i => i = 1
  | .bool b => b
  | .real x => x.sameNumber 1
  | _ => false

/-- A value that is there and not empty. -/
def present? (entries : List (Datum × Datum)) (key : String) : Option Datum :=
  match Datum.lookup? key entries with
  | some .null => none
  | other => other

/-- What is read from a value, or what stands for it where none is given. -/
def readOr {α : Type} (read : Datum → Except Failure α) (usual : α) :
    Option Datum → Except Failure α
  | some v => read v
  | none => .ok usual

def readGap (v : Datum) : Except Failure Datum := Datum.real <$> v.readGap

/-- Width and height from a list of two positive numbers. -/
def sizeOf : Datum → Except Failure (Datum × Datum)
  | .list [width, height] => do
    let width ← width.readNumber "canvas width"
    let height ← height.readNumber "canvas height"
    if width ≤ 0 || height ≤ 0 then throw (.fault .canvasSize)
    return (.real width, .real height)
  | _ => .error (.fault .canvasShape)

def canvasNumberOf : Datum × Datum → Except Failure (Datum × Datum)
  | (.text key, value) =>
    if !Canvas.layoutKeys.contains key then .error (.fault (.layoutKey key.toList))
    else if key = "spiral_samples" then
      match value with
      | .int i => .ok (.text key, .int i)
      | _ => .error (.fault .samplesKind)
    else do
      let x ← value.readNumber ("layout." ++ key)
      return (.text key, .real x)
  | (key, _) => .error (refusal key .layoutKey)

/-- The named numbers of the canvas, in the order of the data. -/
def canvasNumbersOf : Datum → Except Failure Datum
  | .null => .ok (.mapping [])
  | .mapping entries => .mapping <$> entries.mapM canvasNumberOf
  | _ => .error (.fault .layoutKind)

/-- A whole number for the generator, or none. -/
def seedOf : Datum → Except Failure Datum
  | .null => .ok .null
  | .int i => .ok (.int i)
  | _ => .error (.fault .seedKind)

/-- The settings that data describes.  What the data leaves out is that of its
preset.  The canvas is made once, so that unusable numbers are found here. -/
def ofData : Datum → Except Failure Settings
  | .mapping entries => do
    if !(Datum.lookup? "motion" entries).any isVersion then throw (.fault .settingsVersion)
    let base ← ofPreset ((Datum.lookup? "preset" entries).getD (.text "default"))
    let gap ← readOr readGap base.gap (present? entries "gap")
    let size ← readOr sizeOf base.size (present? entries "canvas")
    let canvasNumbers ← canvasNumbersOf ((Datum.lookup? "layout" entries).getD .null)
    let seed ← seedOf ((Datum.lookup? "seed" entries).getD .null)
    let settings : Settings := { base with gap, size, canvasNumbers, seed }
    let _ ← settings.canvas
    return settings
  | _ => .error (.fault .settingsKind)

/-! ## Settings files -/

def maxFileSize : Nat := 1000000

/-- The settings of the file at a path, whose text is read as data; `none` stands
for a file that is not there. -/
def ofFile (read? : List Char → Option Datum) (path : String) :
    Option String → Except Failure Settings
  | none => .error (.fault (.noSettingsFile path))
  | some content =>
    if maxFileSize < content.utf8ByteSize then .error (.fault .settingsSize)
    else
      match read? (Text.lineFeeds content.toList) with
      | some data => if data.isPossible then ofData data else .error .impossibleValue
      | none => .error .malformedFile

end Settings

end KineticText
