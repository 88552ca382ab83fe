import KineticText.Proofs.Canvas.Settling
import KineticText.Proofs.Composition.Answer
import KineticText.Proofs.Schedule.Monotone

/-!
# Compositions that have a result

No text keeps a composition from a result.  On a canvas of doubles a
composition fails where its gap is not accepted, whatever the text is, and
where the text is none; else it has a result if the searches that its segments
make come to an end (`compose_answers`).  The numbers of tags and gaps are
finite, so that each of them has a decimal and none is counted as zero for want
of one.
-/

namespace KineticText

/-- A time in range is the time of its decimal. -/
theorem Quantity.exists_toDecimal?_of_inRange {limit : ℕ} {q : Quantity}
    (h : q.inRange limit = true) : ∃ d, q.toDecimal? = some d ∧ q.seconds = d := by
  unfold Quantity.inRange at h
  unfold Quantity.seconds
  cases hd : q.toDecimal? with
  | none => simp [hd] at h
  | some d => exact ⟨d, rfl, rfl⟩

namespace Composition

variable {text gap : Datum} {c : Canvas} {g g' : Generator}

theorem exists_compose [Trigonometry] (hc : c.HasDoubles) {γ : Decimal} (hgap : Schedule.gapOf gap = .ok γ)
    {s : List Char} (h : c.SearchesEnd g (Script.read s).segments) :
    ∃ answer, compose (.text (String.ofList s)) gap c g = .ok answer := by
  obtain ⟨l, hl⟩ := (hc.settles_of_searchesEnd h).retimed
    (Schedule.forall₂_assignFrom γ (.ofInt 0) (.ofInt 0) _)
  exact ⟨_, compose_of_layout hgap hl⟩

/-- On a canvas of doubles a composition has a result exactly where the gap is
accepted and the text is one, if the searches that it makes end; a gap that is
not accepted and a text that is none give their own failures.  Nothing but a
search is in the way of an accepted gap and a text: one without an end, or on
rings of `2 ^ 60` places or more. -/
theorem compose_answers [Trigonometry] (hc : c.HasDoubles) (text gap : Datum) (g : Generator) :
    (∀ f, gap.readNumber "gap" = .error f → compose text gap c g = .error f) ∧
      (∀ x, gap.readNumber "gap" = .ok x → (∀ s, text ≠ .text s) →
        compose text gap c g = .error (.fault .scriptKind)) ∧
      ((∀ s, text = .text s → c.SearchesEnd g (Script.read s.toList).segments) →
        ((∃ answer, compose text gap c g = .ok answer) ↔
          (∃ x, gap.readNumber "gap" = .ok x) ∧ ∃ s, text = .text s)) ∧
      (∀ n : ℕ, c.ringSamples = .whole n →
        ∀ x, gap.readNumber "gap" = .ok x → ∀ s, text = .text s →
          (∃ answer, compose text gap c g = .ok answer) ∨
            compose text gap c g = .error .endlessSearch ∨
              twoPow 60 ≤ n ∧ compose text gap c g = .error .ringCount) ∧
      (∀ x, gap.readNumber "gap" = .ok x →
        ∃ γ, x.toDecimal? = some γ ∧ Schedule.gapOf gap = .ok γ) ∧
      ∀ t : Tag, ∀ q ∈ [t.entrySpeed, t.displayDuration, t.exitSpeed],
        ∃ d, q.toDecimal? = some d ∧ q.seconds = d := by
  refine ⟨?_, ?_, ?_, ?_, ?_, ?_⟩
  · intro f hgap
    exact compose_of_gap hgap text c g
  · intro x hgap htext
    obtain ⟨γ, -, hγ⟩ := Schedule.exists_gapOf hgap
    exact compose_of_not_text hγ htext c g
  · intro hsearch
    constructor
    · intro h
      obtain ⟨⟨r, g'⟩, h⟩ := h
      obtain ⟨γ, s, l, hgap, htext, -⟩ := compose_eq_ok_iff.1 h
      obtain ⟨x, hx, -⟩ := bind_eq_ok_iff.1 hgap
      exact ⟨⟨x, hx⟩, _, htext⟩
    · intro h
      obtain ⟨⟨x, hx⟩, s, rfl⟩ := h
      obtain ⟨γ, -, hγ⟩ := Schedule.exists_gapOf hx
      have hanswer := exists_compose hc hγ (hsearch s rfl)
      rwa [String.ofList_toList] at hanswer
  · intro n hsamples x hx s htext
    obtain ⟨γ, -, hγ⟩ := Schedule.exists_gapOf hx
    rw [htext, ← String.ofList_toList (s := s)]
    rcases hc.settles_or hsamples g (Schedule.assign γ (Script.read s.toList).segments).1 with
      ⟨l, hl⟩ | hendless | ⟨hn, herror⟩
    · exact .inl ⟨_, compose_of_layout hγ hl⟩
    · exact .inr (.inl (compose_of_layout_error hγ hendless))
    · exact .inr (.inr ⟨hn, compose_of_layout_error hγ herror⟩)
  · intro x hx
    exact Schedule.exists_gapOf hx
  · intro t q hq
    simp only [List.mem_cons, List.not_mem_nil, or_false] at hq
    rcases hq with rfl | rfl | rfl
    · exact Quantity.exists_toDecimal?_of_inRange t.entrySpeed_inRange
    · exact Quantity.exists_toDecimal?_of_inRange t.displayDuration_inRange
    · exact Quantity.exists_toDecimal?_of_inRange t.exitSpeed_inRange

def brackets : String := "<<1L1>R1> >< <9e999L1R1> <1L1R1>"

/-- Brackets that are no tags, and a tag behind no text, on the small canvas. -/
theorem compose_answers_brackets :
    Canvas.smallCanvas.HasDoubles ∧
      (Datum.text "-0.5").readNumber "gap" = .ok (-0.5) ∧
      Canvas.smallCanvas.SearchesEnd ⟨#[], 0⟩ (Script.read brackets.toList).segments ∧
      (∃ answer, compose (.text brackets) (.text "-0.5") Canvas.smallCanvas ⟨#[], 0⟩ =
        .ok answer) ∧
      compose .null (.text "-0.5") Canvas.smallCanvas ⟨#[], 0⟩ = .error (.fault .scriptKind) := by
  have hgap : (Datum.text "-0.5").readNumber "gap" = .ok (-0.5) := by decide +kernel
  have hdoubles := Canvas.hasDoubles_smallCanvas
  have hsearch := Canvas.searchesEnd_smallCanvas ⟨#[], 0⟩ (Script.read brackets.toList).segments
  obtain ⟨-, -, hanswer, -⟩ := compose_answers hdoubles (.text brackets) (.text "-0.5") ⟨#[], 0⟩
  obtain ⟨-, hkind, -⟩ := compose_answers hdoubles .null (.text "-0.5") ⟨#[], 0⟩
  refine ⟨hdoubles, hgap, hsearch, ?_, hkind _ hgap (by rintro _ ⟨⟩)⟩
  apply (hanswer ?_).2
  · exact ⟨⟨_, hgap⟩, _, rfl⟩
  · rintro _ ⟨⟩
    exact hsearch

end Composition

end KineticText
