import KineticText.Proofs.Composition.Totality
import KineticText.Proofs.Schedule.Succession

/-!
# Compositions with a real gap

With a gap of at least a millisecond the segments of a composition of at most a
million seconds play strictly one after another, so that no two of them are
active at one time (`compose_succeed`).
-/

namespace KineticText

namespace Composition

open Timeline (Succeed inPhase)

variable {text gap : Datum} {c : Canvas} {g g' : Generator} {r : Composition} {x : Binary64}

theorem succeed_segments [Trigonometry] (h : compose text gap c g = .ok (r, g'))
    (hgap : gap.readNumber "gap" = .ok x) (hx : 0.001 ≤ x) (htotal : r.totalDuration ≤ 1000000) :
    Succeed r.segments := by
  obtain ⟨γ, s, l, hγ, -, hlayout, rfl, -⟩ := compose_eq_ok_iff.1 h
  obtain ⟨d, hd, hgapOf⟩ := Schedule.exists_gapOf hgap
  rw [hgapOf, Except.ok.injEq] at hγ
  have hlong := Schedule.le_value_of_le hx (hγ ▸ hd)
  exact (Schedule.succeed_assign hlong htotal).placed (Canvas.forall₂_layout hlayout)

/-- With a gap of at least a millisecond each segment is over before the next
one starts, and at any time the completed segments stand in front, the upcoming
ones behind, and at most one is active. -/
theorem compose_succeed [Trigonometry] (h : compose text gap c g = .ok (r, g'))
    (hgap : gap.readNumber "gap" = .ok x) (hx : 0.001 ≤ x) (htotal : r.totalDuration ≤ 1000000) :
    (∀ k s t, r.segments[k]? = some s → r.segments[k + 1]? = some t → s.finish < t.start) ∧
      ∀ time : Quantity, time.isNaN = false →
        (inPhase .active r.segments time).length ≤ 1 ∧
          inPhase .completed r.segments time <+: r.segments ∧
          inPhase .upcoming r.segments time <:+ r.segments ∧
          inPhase .completed r.segments time ++ inPhase .active r.segments time ++
            inPhase .upcoming r.segments time = r.segments := by
  have hsucceed := succeed_segments h hgap hx htotal
  constructor
  · intro k s t hs ht
    obtain ⟨hk, rfl⟩ := List.getElem?_eq_some_iff.1 hs
    obtain ⟨hk', rfl⟩ := List.getElem?_eq_some_iff.1 ht
    exact List.isChain_iff_getElem.1 hsucceed.isChain k hk'
  · intro time htime
    obtain ⟨hsplit, hactive⟩ := hsucceed.inPhase_eq htime
    refine ⟨hactive, ?_, ?_, hsplit⟩
    · exact ⟨_, by rw [← List.append_assoc, hsplit]⟩
    · exact ⟨_, hsplit⟩

/-- Three texts with a gap of a millisecond; in the middle of the second one the
others are not active. -/
theorem compose_succeed_threeTexts :
    ∃ r g', compose (.text "a <0.1L0.1R0.1> b <0.3L0.5R0.3> c") (.real 0.001) Canvas.smallCanvas
        ⟨#[], 0⟩ = .ok (r, g') ∧
      (Datum.real 0.001).readNumber "gap" = .ok 0.001 ∧ (0.001 : Binary64) ≤ 0.001 ∧
      r.totalDuration ≤ 1000000 ∧ r.segments.length = 3 ∧
      (∀ k s t, r.segments[k]? = some s → r.segments[k + 1]? = some t → s.finish < t.start) ∧
      (inPhase .active r.segments (.whole 1)).length ≤ 1 ∧
      inPhase .completed r.segments (.whole 1) <+: r.segments ∧
      inPhase .upcoming r.segments (.whole 1) <:+ r.segments := by
  have hanswer : (compose (.text "a <0.1L0.1R0.1> b <0.3L0.5R0.3> c") (.real 0.001)
        Canvas.smallCanvas ⟨#[], 0⟩).map (fun answer =>
          (decide (answer.1.totalDuration ≤ 1000000), answer.1.segments.length)) =
      .ok (true, 3) := by
    decide +kernel
  obtain ⟨⟨r, g'⟩, h, hr⟩ := map_eq_ok_iff.1 hanswer
  obtain ⟨htotal, hlength⟩ := Prod.mk.inj hr
  have hgap : (Datum.real 0.001).readNumber "gap" = .ok 0.001 := by decide +kernel
  have hx : (0.001 : Binary64) ≤ 0.001 := by decide +kernel
  obtain ⟨hstrict, htimes⟩ := compose_succeed h hgap hx (of_decide_eq_true htotal)
  obtain ⟨hactive, hcompleted, hupcoming, -⟩ := htimes (.whole 1) rfl
  exact ⟨r, g', h, hgap, hx, of_decide_eq_true htotal, hlength, hstrict, hactive, hcompleted,
    hupcoming⟩

end Composition

end KineticText
