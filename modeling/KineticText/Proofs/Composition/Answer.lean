import KineticText.Composition
import KineticText.Proofs.Canvas.Run

/-!
# The answer of a composition

A composition takes three steps that may fail: the gap is accepted, the text is
one, and the scheduled segments are placed.  It has a result where each of them
has one, and the result is put together from theirs (`compose_eq_ok_iff`).  The
first step that fails gives the failure: nothing but the gap is looked at if it
is not accepted (`compose_of_gap`), and neither the canvas nor the generator is
if the text is none (`compose_of_not_text`).
-/

namespace KineticText

namespace Composition

variable {text gap : Datum} {γ : Decimal} {s : List Char} {c : Canvas} {g g' : Generator}
  {l : Layout} {r : Composition}

/-- The composition of a text whose scheduled segments are placed in a layout. -/
@[simps] def ofLayout (γ : Decimal) (s : List Char) (l : Layout) : Composition where
  segments := l.segments
  totalDuration := (Schedule.assign γ (Script.read s).segments).2
  displayText := Script.displayText s
  diagnostics := (Script.read s).diagnostics ++ l.diagnostics

theorem textOf_eq_ok_iff : (Script.textOf text).mapError Failure.fault = .ok s ↔
    text = .text (String.ofList s) := by
  cases text with
  | text t =>
    have htext : (Script.textOf (.text t)).mapError Failure.fault = .ok t.toList := rfl
    rw [htext, Except.ok.injEq, Datum.text.injEq]
    constructor
    · rintro rfl
      exact String.ofList_toList.symm
    · rintro rfl
      exact String.toList_ofList
  | _ => exact iff_of_false (by rintro ⟨⟩) (by rintro ⟨⟩)

variable [Trigonometry]

/-- A composition is what an attempt gives. -/
theorem compose_eq_ok_iff_run :
    compose text gap c g = .ok (r, g') ↔ (attempt text gap c).run g = .ok r g' := by
  unfold compose
  cases (attempt text gap c).run g <;> simp

theorem compose_eq_error_of_fails {f : Failure} (h : Fails (attempt text gap c) g f) :
    compose text gap c g = .error f := by
  obtain ⟨g', hg'⟩ := h
  rw [compose, hg']

/-- An attempt has a result where its three steps have one. -/
theorem run_attempt_eq_ok_iff :
    (attempt text gap c).run g = .ok r g' ↔
      ∃ γ s l, Schedule.gapOf gap = .ok γ ∧ text = .text (String.ofList s) ∧
        c.layout g (Schedule.assign γ (Script.read s).segments).1 = .ok l ∧
          r = ofLayout γ s l ∧ g' = l.generator := by
  unfold attempt
  simp only [run_bind_eq_ok_iff, run_lift_eq_ok_iff, run_pure_eq_ok_iff, textOf_eq_ok_iff]
  constructor
  · rintro ⟨γ, _, ⟨hgap, rfl⟩, s, _, ⟨htext, rfl⟩, ⟨placed, advice⟩, g', hlayout, rfl, rfl⟩
    exact ⟨γ, s, ⟨placed, advice, g'⟩, hgap, htext, Canvas.layout_eq_ok_iff_fresh.2 hlayout, rfl, rfl⟩
  · rintro ⟨γ, s, ⟨placed, advice, g'⟩, hgap, htext, hlayout, rfl, rfl⟩
    exact ⟨γ, g, ⟨hgap, rfl⟩, s, g, ⟨htext, rfl⟩, ⟨placed, advice⟩, g',
      Canvas.layout_eq_ok_iff_fresh.1 hlayout, rfl, rfl⟩

/-- A composition has a result where its three steps have one. -/
theorem compose_eq_ok_iff :
    compose text gap c g = .ok (r, g') ↔
      ∃ γ s l, Schedule.gapOf gap = .ok γ ∧ text = .text (String.ofList s) ∧
        c.layout g (Schedule.assign γ (Script.read s).segments).1 = .ok l ∧
          r = ofLayout γ s l ∧ g' = l.generator :=
  compose_eq_ok_iff_run.trans run_attempt_eq_ok_iff

theorem compose_of_layout (hgap : Schedule.gapOf gap = .ok γ)
    (hlayout : c.layout g (Schedule.assign γ (Script.read s).segments).1 = .ok l) :
    compose (.text (String.ofList s)) gap c g = .ok (ofLayout γ s l, l.generator) :=
  compose_eq_ok_iff.2 ⟨γ, s, l, hgap, rfl, hlayout, rfl, rfl⟩

/-- A layout that fails gives its failure. -/
theorem compose_of_layout_error {f : Failure} (hgap : Schedule.gapOf gap = .ok γ)
    (hlayout : c.layout g (Schedule.assign γ (Script.read s).segments).1 = .error f) :
    compose (.text (String.ofList s)) gap c g = .error f := by
  have hsource := textOf_eq_ok_iff.2 (Eq.refl (Datum.text (String.ofList s)))
  refine compose_eq_error_of_fails (.of_ok (run_lift_eq_ok_iff.2 ⟨hgap, rfl⟩)
    (.of_ok (run_lift_eq_ok_iff.2 ⟨hsource, rfl⟩) (Fails.bind ?_ _)))
  exact Canvas.layout_eq_error_iff_fresh.1 hlayout

/-- A gap that is not accepted is all that is looked at, and nothing is drawn. -/
theorem run_attempt_of_gapOf {f : Failure} (hgap : Schedule.gapOf gap = .error f) (text : Datum)
    (c : Canvas) (g : Generator) : (attempt text gap c).run g = .error f g :=
  run_bind_of_error (run_lift_eq_error_iff.2 ⟨hgap, rfl⟩)

/-- A text that is none is all that is looked at behind the gap, and nothing is
drawn. -/
theorem run_attempt_of_not_text (hgap : Schedule.gapOf gap = .ok γ) (htext : ∀ s, text ≠ .text s)
    (c : Canvas) (g : Generator) : (attempt text gap c).run g = .error (.fault .scriptKind) g := by
  have hsource : (Script.textOf text).mapError Failure.fault = .error (.fault .scriptKind) := by
    cases text with
    | text s => exact absurd rfl (htext s)
    | _ => rfl
  rw [attempt, run_bind_of_ok (run_lift_eq_ok_iff.2 ⟨hgap, rfl⟩)]
  exact run_bind_of_error (run_lift_eq_error_iff.2 ⟨hsource, rfl⟩)

theorem compose_of_gapOf {f : Failure} (hgap : Schedule.gapOf gap = .error f) (text : Datum)
    (c : Canvas) (g : Generator) : compose text gap c g = .error f :=
  compose_eq_error_of_fails ⟨g, run_attempt_of_gapOf hgap text c g⟩

theorem compose_of_gap {f : Failure} (hgap : gap.readNumber "gap" = .error f) (text : Datum)
    (c : Canvas) (g : Generator) : compose text gap c g = .error f :=
  compose_of_gapOf (bind_eq_error_iff.2 (.inl hgap)) text c g

theorem compose_of_not_text (hgap : Schedule.gapOf gap = .ok γ) (htext : ∀ s, text ≠ .text s)
    (c : Canvas) (g : Generator) : compose text gap c g = .error (.fault .scriptKind) :=
  compose_eq_error_of_fails ⟨g, run_attempt_of_not_text hgap htext c g⟩

end Composition

end KineticText
