import KineticText.CommandLine.Outcome
import KineticText.Canvas.PowerSeries

/-!
# The program

Reads the files that the command line names, runs, prints, and ends with a
status: zero after a report, two for a command line that is not understood,
one for any other failure.
-/

namespace KineticText.CommandLine

def failureText : Failure → String
  | .fault fault => fault.message
  | .tooLarge => "a number is too large"
  | .misfit => "a setting has a value of the wrong kind"
  | .malformedFile => "the settings file is not well-formed"
  | .impossibleValue => "the settings file names a number or a date that does not exist or cannot be shown"
  | .noTextFile path => "there is no text file " ++ path
  | .usage =>
    "usage: kinetictext [-t TEXT | -i FILE] [-s FILE | -p PRESET] [-g GAP] [-W WIDTH] " ++
      "[-H HEIGHT] [--seed SEED] [-a TIME] [-e] [-q]"
  | .ringCount => "a ring has no number of places, or too many"
  | .endlessSearch => "the search for a free place never ends"

def failureStatus : Failure → UInt32
  | .usage => 2
  | _ => 1

def readFile? (path : String) : IO (Option String) := do
  try
    return some (← IO.FS.readFile path)
  catch _ =>
    return none

def pathsOf (i : Invocation) : List String :=
  [i.settingsFile, i.textFile].filterMap fun
    | some (.text path) => some path
    | _ => none

/-- The surroundings of a run: the named files, and standard input where the
script comes from there. -/
def surroundings (invocation : Option Invocation) : IO Environment := do
  let paths := invocation.toList.flatMap pathsOf
  let files ← paths.mapM fun path => return (path, ← readFile? path)
  let needsInput := invocation.any fun i => !i.examples && i.text.isNone && i.textFile.isNone
  let input ← if needsInput then (← IO.getStdin).readToEnd else pure ""
  let chance ← IO.getRandomBytes 8
  return {
    file := fun path => (files.lookup path).join
    input
    fallbackSeed := chance.foldl (fun n byte => 256 * n + byte.toNat) (0 : Nat) }

end KineticText.CommandLine

open KineticText.CommandLine in
def main (arguments : List String) : IO UInt32 := do
  let environment ← surroundings (Invocation.read? arguments)
  let outcome := run arguments environment
  IO.print outcome.text
  match outcome.report with
  | .ok _ => return 0
  | .error failure =>
    IO.eprintln (failureText failure)
    return failureStatus failure
