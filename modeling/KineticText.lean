import KineticText.Main
import KineticText.Proofs.Script.Rendering
import KineticText.Proofs.Script.Append
import KineticText.Proofs.Script.Display
import KineticText.Proofs.Script.Place
import KineticText.Proofs.Canvas.Run
import KineticText.Proofs.Composition.Append
import KineticText.Proofs.Number.Sum
import KineticText.Proofs.Schedule.Exact
import KineticText.Proofs.Canvas.Overlap
import KineticText.Proofs.Number.Rounded
import KineticText.Proofs.Canvas.Search
import KineticText.Proofs.Canvas.Settling
import KineticText.Proofs.Schedule.Total
import KineticText.Proofs.Composition.Duration
import KineticText.Proofs.Composition.Totality
import KineticText.Proofs.Canvas.Draws
import KineticText.Proofs.Session
import KineticText.Proofs.Timeline.Succession
import KineticText.Proofs.Schedule.Succession
import KineticText.Proofs.Composition.Succession
import KineticText.Proofs.Datum.Number
import KineticText.Proofs.Canvas.Making
import KineticText.Proofs.Settings.Checked
import KineticText.Proofs.Settings.Misuse
import KineticText.Proofs.Number.Clamp
import KineticText.Proofs.Canvas.Position
import KineticText.Proofs.CommandLine.Limits
import KineticText.Proofs.Canvas.FirstFit
import KineticText.Proofs.Number.Quotient
import KineticText.Proofs.Timeline.Progress
import KineticText.Proofs.Timeline.Walk
import KineticText.Proofs.Number.FifteenDigits
import KineticText.Proofs.Schedule.TotalDuration
import KineticText.Proofs.Canvas.Margins
import KineticText.Proofs.Script.Partition
import KineticText.Proofs.Composition.Inert
import KineticText.Proofs.Schedule.Monotone
import KineticText.Proofs.Tag.Canonical
import KineticText.Proofs.Composition.Independence
import KineticText.Proofs.Canvas.Jitter
import KineticText.Proofs.Settings.Loading
import KineticText.Proofs.Tag.Rejection
import KineticText.Proofs.Script.Plain
import KineticText.Proofs.Composition.Respaced
import KineticText.Proofs.CommandLine.Warning
import KineticText.Proofs.Datum.Seconds
