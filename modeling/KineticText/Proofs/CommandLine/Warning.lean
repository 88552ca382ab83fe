import KineticText.Proofs.CommandLine.Limits
import KineticText.Proofs.Schedule.Cursor
import KineticText.Proofs.Script.Line

/-!
# Warnings of a run

A run prints a warning for each diagnostic of its composition, and ends it with
a line feed.  That is one line for each of them unless the value of a malformed
tag has line breaks: they are printed as they are (`lineBreaks_reported`).
-/

namespace KineticText

open Text

namespace Composition

variable {s : List Char} {gap : Datum} {c : Canvas} {g g' : Generator} {r : Composition}

/-- Behind what is reported about the tags of a text there is only what is
reported about segments without a free place, in one line each. -/
theorem exists_overflows [Trigonometry] (h : compose (.text (String.ofList s)) gap c g = .ok (r, g')) :
    ∃ overflows, r.diagnostics = (Script.read s).diagnostics ++ overflows ∧
      ∀ d ∈ overflows, ∃ t ∈ (Script.read s).segments, d = .layoutOverflow t.text t.index ∧
        lineBreaks d.line.toList = 0 := by
  obtain ⟨γ, s', l, -, htext, hlayout, rfl, -⟩ := compose_eq_ok_iff.1 h
  obtain rfl : s = s' := String.ofList_injective (Datum.text.inj htext)
  refine ⟨l.diagnostics, rfl, fun d hd => ?_⟩
  obtain ⟨t, ht, hd⟩ := Canvas.eq_layoutOverflow_of_mem_layout hlayout d hd
  rw [Schedule.assign, Schedule.fst_assignFrom] at ht
  obtain ⟨k, hk, rfl⟩ := List.mem_mapIdx.1 ht
  have hmem : (Script.read s).segments[k] ∈ (Script.read s).segments := List.getElem_mem hk
  refine ⟨_, hmem, hd, ?_⟩
  rw [hd]
  exact Diagnostic.lineBreaks_line_layoutOverflow (Script.lineBreaks_text hmem) _

end Composition

namespace CommandLine

variable {i : Invocation} {e : Environment} {r : Composition}

theorem lines_run [Trigonometry] (hexamples : i.examples = false) (hquiet : i.quiet = false)
    (h : i.compose e = .ok r) : (i.run e).lines = r.diagnostics.map warning := by
  simp [Invocation.run, hexamples, hquiet, h]

theorem lineBreaks_warning (d : Diagnostic) :
    lineBreaks (warning d).toList = lineBreaks d.line.toList := by
  have hfront : lineBreaks "WARNING: ".toList = 0 := by decide +kernel
  rw [warning, String.toList_append, lineBreaks_append, hfront, Nat.zero_add]

/-- Every line is ended by one line break more. -/
theorem lineBreaks_linesText (o : Outcome) : lineBreaks o.linesText.toList =
    o.lines.length + (o.lines.map fun l => lineBreaks l.toList).sum := by
  have hend : lineBreaks "\n".toList = 1 := by decide +kernel
  rw [Outcome.linesText, String.toList_join]
  induction o.lines with
  | nil => rfl
  | cons l lines ih =>
    rw [List.map_cons, List.flatMap_cons, lineBreaks_append, ih, String.toList_append,
      lineBreaks_append, hend, List.length_cons, List.map_cons, List.sum_cons]
    omega

/-- All that is printed for a composition in front of its report ends as many
lines as there are diagnostics, and has the line breaks of the values that are
rejected in the text. -/
theorem lineBreaks_linesText_run [Trigonometry] {s : List Char} (hexamples : i.examples = false)
    (hquiet : i.quiet = false) (hscript : i.script e = .ok (.text (String.ofList s)))
    (h : i.compose e = .ok r) : lineBreaks (i.run e).linesText.toList =
      r.diagnostics.length + lineBreaks (Script.rejectedValues s).flatten := by
  obtain ⟨_, _, -, -, script, g, g', hscript', hcompose⟩ := Invocation.exists_compose_eq_ok h
  obtain rfl := Except.ok.inj (hscript.symm.trans hscript')
  obtain ⟨overflows, hdiagnostics, hoverflows⟩ := Composition.exists_overflows hcompose
  have hnone : (overflows.map fun d => lineBreaks d.line.toList).sum = 0 := by
    refine List.sum_eq_zero fun n hn => ?_
    obtain ⟨d, hd, rfl⟩ := List.mem_map.1 hn
    obtain ⟨t, -, -, hline⟩ := hoverflows d hd
    exact hline
  rw [lineBreaks_linesText, lines_run hexamples hquiet h, List.length_map, List.map_map]
  simp only [Function.comp_def, lineBreaks_warning]
  rw [hdiagnostics, List.map_append, List.sum_append, hnone, Script.sum_lineBreaks_read,
    Nat.add_zero]

/-- What is reported about a text is one line for each diagnostic and has the line
breaks of the values that are rejected in it, each in the line of its tag.  A
line without such a value has none, and so it is with what a run prints. -/
theorem lineBreaks_reported [Trigonometry] (s : List Char) :
    (∀ d ∈ (Script.read s).diagnostics, ∃ (i : ℕ) (raw : List Char),
      (Token.scan s)[i]? = some (.tag raw) ∧
        ((∃ e, Tag.read raw = .error e ∧ d = .malformedTag raw i e ∧
            lineBreaks d.line.toList = lineBreaks e.value) ∨
          (∃ t, Tag.read raw = .ok t) ∧ d = .orphanTag raw i ∧ lineBreaks d.line.toList = 0)) ∧
      (∀ {gap : Datum} {c : Canvas} {g g' : Generator} {r : Composition},
        Composition.compose (.text (String.ofList s)) gap c g = .ok (r, g') →
          ∃ overflows, r.diagnostics = (Script.read s).diagnostics ++ overflows ∧
            ∀ d ∈ overflows, ∃ t ∈ (Script.read s).segments,
              d = .layoutOverflow t.text t.index ∧ lineBreaks d.line.toList = 0) ∧
      ∀ {i : Invocation} {e : Environment} {r : Composition},
        i.examples = false → i.quiet = false → i.script e = .ok (.text (String.ofList s)) →
          i.compose e = .ok r → (i.run e).lines = r.diagnostics.map warning ∧
            lineBreaks (i.run e).linesText.toList =
              r.diagnostics.length + lineBreaks (Script.rejectedValues s).flatten := by
  refine ⟨fun d hd => ?_, Composition.exists_overflows, ?_⟩
  · obtain ⟨i, hi⟩ := (Script.read_conserves s).diagnostics.exists_of_mem hd
    exact ⟨i, Script.lineBreaks_line_of_diagnosed hi⟩
  · exact fun hexamples hquiet hscript h =>
      ⟨lines_run hexamples hquiet h, lineBreaks_linesText_run hexamples hquiet hscript h⟩

/-- A tag with a line feed behind its first number, an orphan, and a word. -/
def brokenText : List Char := "<1\nL1R1><1L1R1>a".toList

/-- The invocation with this text. -/
def brokenInvocation : Invocation := { text := some (.text (String.ofList brokenText)) }

/-- Two diagnostics are printed on three lines. -/
theorem lineBreaks_reported_brokenText :
    ∃ r, brokenInvocation.compose emptyEnvironment = .ok r ∧
      (brokenInvocation.run emptyEnvironment).lines = r.diagnostics.map warning ∧
        lineBreaks (brokenInvocation.run emptyEnvironment).linesText.toList = 3 := by
  have hcompose : (brokenInvocation.compose emptyEnvironment).map
      (fun r => r.diagnostics.length) = .ok 2 := by
    decide +kernel
  obtain ⟨r, hr, hlength⟩ := map_eq_ok_iff.1 hcompose
  obtain ⟨hlines, hbreaks⟩ := (lineBreaks_reported brokenText).2.2 rfl rfl rfl hr
  have hvalues : lineBreaks (Script.rejectedValues brokenText).flatten = 1 := by decide +kernel
  rw [hlength, hvalues] at hbreaks
  exact ⟨r, hr, hlines, hbreaks⟩

/-- A tag that is wrapped from one line to the next. -/
def wrappedText : String := "Hello <0.3F1.2\nR0.9> World"

/-- The line feed stands in place of the second direction, and in the warning. -/
theorem warning_wrapped :
    (Script.read wrappedText.toList).diagnostics.map Diagnostic.line =
        ["malformed_tag: token 1: Invalid exit direction '\n'. Use L, R, F, or B"] ∧
      (∃ d ∈ (Script.read wrappedText.toList).diagnostics, lineBreaks d.line.toList ≠ 0) ∧
        (run ["-t", wrappedText] emptyEnvironment).linesText =
          "WARNING: malformed_tag: token 1: Invalid exit direction '\n'. Use L, R, F, or B\n" := by
  refine ⟨?_, ?_, ?_⟩
  · decide +kernel
  · decide +kernel
  · decide +kernel

end CommandLine

end KineticText
