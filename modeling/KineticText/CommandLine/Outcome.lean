import KineticText.CommandLine.Invocation
import KineticText.Report
import KineticText.Yaml.Writing

/-!
# Outcomes

What a run of the program prints: example tags, or a warning for each
diagnostic and then the report.

In the program `run` is the body of `main`, and `warning` what `log_warning` prints.
-/

namespace KineticText.CommandLine

structure Outcome where
  /-- Whether warnings are kept back. -/
  quiet : Bool := false
  /-- The lines in front of the report. -/
  lines : List String := []
  report : Except Failure (Option Datum)

/-- Tags to learn from, each with what it does. -/
def exampleTags : List (String × String) :=
  [("<0.3F1.2R0.9>", "Front entry (0.3s), display 1.2s, exit right (0.9s)"),
   ("<0.5L1.8B0.4>", "Left entry (0.5s), display 1.8s, exit back (0.4s)"),
   ("<0.8R2.0F1.2>", "Right entry (0.8s), display 2.0s, exit front (1.2s)"),
   ("<0.2B0.5L0.6>", "Back entry (0.2s), display 0.5s, exit left (0.6s)")]

def warning (d : Diagnostic) : String := "WARNING: " ++ d.line

def Invocation.run [Trigonometry] (i : Invocation) (e : Environment) : Outcome :=
  if i.examples then
    { quiet := i.quiet
      lines := exampleTags.map fun (tag, description) => tag ++ "  " ++ description
      report := .ok none }
  else
    match i.compose e with
    | .error failure => { quiet := i.quiet, report := .error failure }
    | .ok composition =>
      { quiet := i.quiet
        lines := if i.quiet then [] else composition.diagnostics.map warning
        report := some <$> KineticText.report composition i.time }

def run [Trigonometry] (arguments : List String) (e : Environment) : Outcome :=
  match Invocation.read? arguments with
  | some invocation => invocation.run e
  | none => { report := .error .usage }

namespace Outcome

def linesText (o : Outcome) : String := String.join (o.lines.map (· ++ "\n"))

/-- Everything that a run prints; an empty line follows the report. -/
def text (o : Outcome) : String :=
  match o.report with
  | .ok (some report) => o.linesText ++ String.ofList (Yaml.write report) ++ "\n"
  | _ => o.linesText

end Outcome

end KineticText.CommandLine
