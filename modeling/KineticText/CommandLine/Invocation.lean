import KineticText.CommandLine.Word
import KineticText.Settings
import KineticText.Yaml.Reading

/-!
# Invocations

An `Invocation` is what a command line asks for, with its values checked.  Of
several values for one parameter the last one counts, but each must be usable.
Two dashes as a value stand for an empty list, which passes every check here
and fits nothing later on.

In the program `read?` is `parse_args`, `settings` is `build_settings`, and `script`
is `read_text`.
-/

namespace KineticText.CommandLine

structure Invocation where
  text : Option Datum := none
  textFile : Option Datum := none
  settingsFile : Option Datum := none
  preset : Option Datum := none
  gap : Option Datum := none
  width : Option Datum := none
  height : Option Datum := none
  seed : Option Datum := none
  /-- The time that the report looks at. -/
  time : Option Datum := none
  examples : Bool := false
  quiet : Bool := false
deriving Repr

/-- Where files, standard input and chance come from. -/
structure Environment where
  file : String → Option String
  input : String
  /-- The seed of a run that sets none. -/
  fallbackSeed : Int
  /-- How the text of a settings file is read as data. -/
  readData? : List Char → Option Datum := Yaml.read?

namespace Invocation

/-! ## Reading a command line -/

def valueOf? (read? : List Char → Option Datum) (value : List Char) : Option Datum :=
  if value = ['-', '-'] then some (.list []) else read? value

/-- The invocation with one more setting.  A request for help is not met. -/
def set (i : Invocation) (p : Parameter) (value : List Char) : Option Invocation :=
  let text := valueOf? (fun s => some (.text (String.ofList s))) value
  let real := valueOf? (fun s => (Binary64.read? s).map Datum.real) value
  match p with
  | .text => some { i with text }
  | .textFile => some { i with textFile := text }
  | .settingsFile => some { i with settingsFile := text }
  | .preset =>
    (valueOf? (fun s => if (Settings.presets.lookup (String.ofList s)).isSome then text else none)
      value).map fun v => { i with preset := v }
  | .gap => real.map fun v => { i with gap := v }
  | .width => real.map fun v => { i with width := v }
  | .height => real.map fun v => { i with height := v }
  | .seed => (valueOf? (fun s => (readInt? s).map Datum.int) value).map fun v => { i with seed := v }
  | .time => real.map fun v => { i with time := v }
  | .examples => some { i with examples := true }
  | .quiet => some { i with quiet := true }
  | .help => none

/-- The invocation of a list of arguments.  Settings come from a file or from a
preset, not from both. -/
def read? (arguments : List String) : Option Invocation := do
  let words ← arguments.mapM fun argument => Word.ofArgument? argument.toList
  let pairs ← pairs? words.flatten
  let invocation ← pairs.foldlM (fun i (p, value) => i.set p value) ({} : Invocation)
  if invocation.settingsFile.isSome && invocation.preset.isSome then none else some invocation

/-! ## What it stands for -/

/-- The settings from which an invocation starts: those of a file or of a
preset, else the usual ones. -/
def base (i : Invocation) (e : Environment) : Except Failure Settings :=
  match i.settingsFile, i.preset with
  | some (.text path), _ => Settings.ofFile e.readData? path (e.file path)
  | some _, _ => .error .misfit
  | none, some name => Settings.ofPreset name
  | none, none => .ok {}

/-- The settings of an invocation.  A gap is checked here, a canvas only when
it is made. -/
def settings (i : Invocation) (e : Environment) : Except Failure Settings := do
  let base ← i.base e
  let gap ← Settings.readOr Settings.readGap base.gap i.gap
  return { base with
    gap
    size := (i.width.getD base.size.1, i.height.getD base.size.2)
    seed := i.seed.getD base.seed }

/-- The script of an invocation: its text, else its text file, else standard
input. -/
def script (i : Invocation) (e : Environment) : Except Failure Datum :=
  let withLineFeeds := fun (content : String) =>
    Datum.text (String.ofList (Text.lineFeeds content.toList))
  match i.text, i.textFile with
  | some text, _ => .ok text
  | none, some (.text path) =>
    match e.file path with
    | some content => .ok (withLineFeeds content)
    | none => .error (.noTextFile path)
  | none, some _ => .error .misfit
  | none, none => .ok (withLineFeeds e.input)

/-- The composition of an invocation.  Settings are read in front of the
script. -/
def compose [Trigonometry] (i : Invocation) (e : Environment) : Except Failure Composition := do
  let settings ← i.settings e
  let script ← i.script e
  settings.compose script e.fallbackSeed

end Invocation

end KineticText.CommandLine
