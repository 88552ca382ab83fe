import KineticText.Canvas.PowerSeries
import KineticText.Proofs.Composition.Answer
import KineticText.Proofs.Schedule.Cursor
import KineticText.Proofs.Script.Inert

/-!
# Compositions without reported tags

Only the segments of a text are scheduled and placed.  So a text with spaces in
the place of the tags that something is reported about is composed like the
text itself, and with the same generator behind it.  What is reported about
tags is missing, and all that can be left to report is a text without a free
place (`compose_withoutReported`).
-/

namespace KineticText

namespace Composition

/-- A composition that fails does so for every text with these segments. -/
theorem compose_error_of_segments [Trigonometry] {s t : List Char} {gap : Datum} {c : Canvas} {g : Generator}
    {f : Failure} (hsegments : (Script.read t).segments = (Script.read s).segments)
    (h : compose (.text (String.ofList s)) gap c g = .error f) :
    compose (.text (String.ofList t)) gap c g = .error f := by
  cases hgap : Schedule.gapOf gap with
  | error e =>
    rw [compose_of_gapOf hgap] at h ⊢
    exact h
  | ok γ =>
    cases hlayout : c.layout g (Schedule.assign γ (Script.read s).segments).1 with
    | error e =>
      rw [compose_of_layout_error hgap hlayout] at h
      rw [compose_of_layout_error hgap (hsegments ▸ hlayout)]
      exact h
    | ok l =>
      rw [compose_of_layout hgap hlayout] at h
      cases h

/-- Tags that are reported have no part in a composition. -/
theorem compose_withoutReported [Trigonometry] (s : List Char) :
    Script.read (Script.withoutReported s) = ⟨(Script.read s).segments, []⟩ ∧
      ∀ {gap : Datum} {c : Canvas} {g : Generator},
        (∀ f, compose (.text (String.ofList s)) gap c g = .error f ↔
          compose (.text (String.ofList (Script.withoutReported s))) gap c g = .error f) ∧
        ∀ {γ : Decimal}, Schedule.gapOf gap = .ok γ → c.Settles g (Script.read s).segments →
          ∃ r q g', compose (.text (String.ofList s)) gap c g = .ok (r, g') ∧
            compose (.text (String.ofList (Script.withoutReported s))) gap c g = .ok (q, g') ∧
            q.segments = r.segments ∧ q.totalDuration = r.totalDuration ∧
            r.diagnostics = (Script.read s).diagnostics ++ q.diagnostics ∧
            ∀ d ∈ q.diagnostics, d.kind = "layout_overflow" := by
  have hread := Script.read_withoutReported s
  have hsegments : (Script.read (Script.withoutReported s)).segments =
      (Script.read s).segments := by rw [hread]
  refine ⟨hread, fun {gap c g} => ⟨fun f => ?_, fun {γ} hgap hsettles => ?_⟩⟩
  · exact ⟨compose_error_of_segments hsegments, compose_error_of_segments hsegments.symm⟩
  · obtain ⟨l, hl⟩ := hsettles.retimed
      (Schedule.forall₂_assignFrom γ (.ofInt 0) (.ofInt 0) (Script.read s).segments)
    have hdiagnostics : (ofLayout γ (Script.withoutReported s) l).diagnostics = l.diagnostics := by
      rw [ofLayout_diagnostics, hread, List.nil_append]
    refine ⟨_, _, _, compose_of_layout hgap hl, compose_of_layout hgap (hsegments ▸ hl), rfl, ?_,
      ?_, ?_⟩
    · rw [ofLayout_totalDuration, ofLayout_totalDuration, hsegments]
    · rw [hdiagnostics, ofLayout_diagnostics]
    · rw [hdiagnostics]
      exact Canvas.kind_of_mem_layout hl

/-- An orphan in front of a word, a tag with a number missing in a group, and a
word without a tag behind it. -/
def untidyText : List Char := "<1L1R1>a<1L1R>b<1L1R1>c".toList

example : Script.withoutReported untidyText = " a b<1L1R1>c".toList := by decide +kernel

theorem compose_withoutReported_untidyText :
    Schedule.gapOf (.text "-0.5") = .ok ⟨true, 5, -1⟩ ∧
      Canvas.smallCanvas.Settles ⟨#[], 0⟩ (Script.read untidyText).segments ∧
      ∃ r q g', compose (.text (String.ofList untidyText)) (.text "-0.5") Canvas.smallCanvas
          ⟨#[], 0⟩ = .ok (r, g') ∧
        compose (.text (String.ofList (Script.withoutReported untidyText))) (.text "-0.5")
          Canvas.smallCanvas ⟨#[], 0⟩ = .ok (q, g') ∧
        q.segments = r.segments ∧ q.totalDuration = r.totalDuration ∧
        r.diagnostics = (Script.read untidyText).diagnostics ++ q.diagnostics ∧
        ∀ d ∈ q.diagnostics, d.kind = "layout_overflow" := by
  have hgap : Schedule.gapOf (.text "-0.5") = .ok ⟨true, 5, -1⟩ := by decide +kernel
  have hsettles : Canvas.smallCanvas.Settles ⟨#[], 0⟩ (Script.read untidyText).segments := by
    decide +kernel
  exact ⟨hgap, hsettles, (compose_withoutReported untidyText).2.2 hgap hsettles⟩

end Composition

end KineticText
