import KineticText.Canvas.PowerSeries
import KineticText.Proofs.Canvas.Draws
import KineticText.Proofs.Composition.Totality
import KineticText.Session

/-!
# Calls that share a generator

In a session calls are made one after another with one state.  All that a later
call sees of the earlier ones is the generator, and this stands two draws
further for each tagged segment that they have placed.

Two things are shown of one call: what it answers depends on the generator
alone, and it leaves the generator behind as many draws.  From this it follows
by induction on the calls that each of them is answered as if it were made alone
(`Session.answers_alone`).  Compositions share a generator as it is, and a call
that is rejected for its gap or its text draws nothing
(`Composition.Call.IsRejected.run_eq`).  The layouts of one engine share the
engine: it keeps the advice about the row before, and forgets it when a row
begins (`Engine.run_layout_eq`).

There are four groups: sessions, compositions, layouts, and both together
(`session_fresh`).
-/

namespace KineticText

/-! ## Sessions -/

namespace Session

variable {ι σ α : Type} {call : ι → EStateM Failure σ α} {i : ι} {s t : σ} {a : α} {f : Failure}

theorem answer_of_ok (h : (call i).run s = .ok a t) : answer call i s = (.ok a, t) := by
  rw [answer, h]

theorem answer_of_error (h : (call i).run s = .error f t) : answer call i s = (.error f, t) := by
  rw [answer, h]

/-- The draws of calls, where each of them takes two for each segment counted. -/
def draws (count : ι → ℕ) (calls : List ι) : ℕ := 2 * (calls.map count).sum

theorem draws_cons (count : ι → ℕ) (i : ι) (rest : List ι) :
    draws count (i :: rest) = 2 * count i + draws count rest := by
  rw [draws, draws, List.map_cons, List.sum_cons, Nat.mul_add]

/-- A call gives the answer `alone` of the generator in a state, and leaves the
generator two draws further for each segment that is counted. -/
def AnsweredAlone (call : ι → EStateM Failure σ α) (generatorOf : σ → Generator)
    (count : ι → ℕ) (alone : ι → Generator → Except Failure α) (i : ι) (g : Generator) : Prop :=
  ∀ s, generatorOf s = g →
    (answer call i s).1 = alone i g ∧ generatorOf (answer call i s).2 = g.advance (2 * count i)

/-- Calls that are answered alone where they are made are so in a session. -/
theorem answers_alone (generatorOf : σ → Generator) {count : ι → ℕ}
    {alone : ι → Generator → Except Failure α} {g : Generator} {calls : List ι}
    (h : ∀ front i rest, calls = front ++ i :: rest →
      AnsweredAlone call generatorOf count alone i (g.advance (draws count front)))
    (hs : generatorOf s = g) :
    generatorOf (answers call calls s).2 = g.advance (draws count calls) ∧
      ∀ k i, calls[k]? = some i → (answers call calls s).1[k]? =
        some (alone i (g.advance (draws count (calls.take k)))) := by
  induction calls generalizing g s with
  | nil => exact ⟨hs, fun k i hi => by cases hi⟩
  | cons j rest ih =>
    obtain ⟨hfirst, hgenerator⟩ := h [] j rest rfl s hs
    have hcons (xs : List ι) : (g.advance (2 * count j)).advance (draws count xs) =
        g.advance (draws count (j :: xs)) := by
      rw [draws_cons, Generator.advance_add]
    obtain ⟨hlast, hothers⟩ := ih (g := g.advance (2 * count j)) (s := (answer call j s).2)
      (fun front i back hrest => by
        rw [hcons]
        exact h (j :: front) i back (by rw [hrest, List.cons_append])) hgenerator
    refine ⟨hlast.trans (hcons rest), ?_⟩
    intro k i hi
    cases k with
    | zero =>
      cases hi
      exact congrArg some hfirst
    | succ k =>
      rw [List.take_succ_cons, ← hcons]
      exact hothers k i hi

end Session

open Session (draws AnsweredAlone answers)

/-! ## Compositions -/

namespace Composition

/-- A composition that is asked for. -/
structure Call where
  text : Datum
  gap : Datum
  canvas : Canvas

namespace Call

/-- The number of tagged segments that a call places: those of its text, if it
is not rejected. -/
def taggedCount (call : Call) : ℕ :=
  match Schedule.gapOf call.gap, call.text with
  | .ok _, .text s => KineticText.taggedCount (Script.read s.toList).segments
  | _, _ => 0

/-- The call is rejected for its gap, or for its text if the gap is accepted. -/
def IsRejected (call : Call) (f : Failure) : Prop :=
  call.gap.readNumber "gap" = .error f ∨
    (∃ x, call.gap.readNumber "gap" = .ok x) ∧ (∀ s, call.text ≠ .text s) ∧ f = .fault .scriptKind

theorem IsRejected.taggedCount_eq {call : Call} {f : Failure} (h : call.IsRejected f) :
    call.taggedCount = 0 := by
  unfold taggedCount
  rcases h with hgap | ⟨-, htext, -⟩
  · have hγ : Schedule.gapOf call.gap = .error f := bind_eq_error_iff.2 (.inl hgap)
    rw [hγ]
  · split
    · exact absurd ‹_› (htext _)
    · rfl

section Answers

variable [Trigonometry] {call : Call} {f : Failure} {g g' : Generator} {r : Composition}

def attempt (call : Call) : EStateM Failure Generator Composition :=
  Composition.attempt call.text call.gap call.canvas

/-- The answer of a call that is made alone. -/
def alone (call : Call) (g : Generator) : Except Failure Composition :=
  (compose call.text call.gap call.canvas g).map Prod.fst

/-- The canvas of the call is one of doubles, and the searches end that the call
makes with a generator. -/
def SearchesEnd (call : Call) (g : Generator) : Prop :=
  call.canvas.HasDoubles ∧
    ∀ s, call.text = .text s → call.canvas.SearchesEnd g (Script.read s.toList).segments

/-- A call that is rejected draws nothing. -/
theorem IsRejected.run_eq (h : call.IsRejected f) (g : Generator) :
    call.attempt.run g = .error f g := by
  rcases h with hgap | ⟨⟨x, hx⟩, htext, rfl⟩
  · exact run_attempt_of_gapOf (bind_eq_error_iff.2 (.inl hgap)) ..
  · obtain ⟨γ, -, hγ⟩ := Schedule.exists_gapOf hx
    exact run_attempt_of_not_text hγ htext ..

/-- A call takes two draws for each of its tagged segments. -/
theorem generator_eq (h : call.attempt.run g = .ok r g') :
    g' = g.advance (2 * call.taggedCount) := by
  obtain ⟨γ, s, l, hgap, htext, hlayout, rfl, rfl⟩ := run_attempt_eq_ok_iff.1 h
  have hsame : List.Forall₂ Segment.SameText (Script.read s).segments
      (Schedule.assign γ (Script.read s).segments).1 := by
    refine (Schedule.forall₂_assignFrom γ (.ofInt 0) (.ofInt 0) _).imp ?_
    intro s t hst
    rw [hst]
    exact ⟨rfl, rfl⟩
  have hcount : call.taggedCount = KineticText.taggedCount (Script.read s).segments := by
    unfold taggedCount
    rw [hgap, htext]
    dsimp only
    rw [String.toList_ofList]
  rw [Canvas.layout_generator hlayout, taggedCount_congr hsame, hcount]

/-- A call whose searches end has an answer or is rejected. -/
theorem SearchesEnd.ok_or_isRejected (h : call.SearchesEnd g) :
    (∃ r g', call.attempt.run g = .ok r g') ∨ ∃ f, call.IsRejected f := by
  obtain ⟨hc, hsearch⟩ := h
  cases hgap : call.gap.readNumber "gap" with
  | error f => exact .inr ⟨f, .inl hgap⟩
  | ok x =>
    obtain ⟨γ, -, hγ⟩ := Schedule.exists_gapOf hgap
    by_cases htext : ∃ s, call.text = .text s
    · obtain ⟨s, hs⟩ := htext
      obtain ⟨⟨r, g'⟩, hanswer⟩ := exists_compose hc hγ (hsearch s hs)
      rw [String.ofList_toList, ← hs] at hanswer
      exact .inl ⟨r, g', compose_eq_ok_iff_run.1 hanswer⟩
    · push Not at htext
      exact .inr ⟨_, .inr ⟨⟨x, hgap⟩, htext, rfl⟩⟩

theorem SearchesEnd.answeredAlone (h : call.SearchesEnd g) :
    AnsweredAlone attempt id taggedCount alone call g := by
  intro s hs
  obtain rfl : s = g := hs
  rcases h.ok_or_isRejected with ⟨r, g', hrun⟩ | ⟨f, hreject⟩
  · rw [Session.answer_of_ok hrun, alone, compose_eq_ok_iff_run.2 hrun]
    exact ⟨rfl, generator_eq hrun⟩
  · have hrun := hreject.run_eq s
    rw [Session.answer_of_error hrun, alone, compose_eq_error_of_fails ⟨s, hrun⟩,
      hreject.taggedCount_eq]
    exact ⟨rfl, rfl⟩

end Answers

end Call

/-- Tagged texts of the same lengths lie at the same places, whatever else the
scripts are. -/
theorem compose_positions [Trigonometry] {c : Canvas} {g h h' : Generator}
    {text gap text' gap' : Datum} {r r' : Composition} (hr : compose text gap c g = .ok (r, h))
    (hr' : compose text' gap' c g = .ok (r', h'))
    (hlengths : taggedLengths r.segments = taggedLengths r'.segments) :
    taggedPositions r.segments = taggedPositions r'.segments := by
  obtain ⟨γ, s, l, -, -, hlayout, rfl, -⟩ := compose_eq_ok_iff.1 hr
  obtain ⟨γ', s', l', -, -, hlayout', rfl, -⟩ := compose_eq_ok_iff.1 hr'
  apply Canvas.layout_positions hlayout hlayout'
  rw [← taggedLengths_congr (Canvas.forall₂_sameText hlayout),
    ← taggedLengths_congr (Canvas.forall₂_sameText hlayout')]
  exact hlengths

end Composition

/-! ## Layouts -/

section Layouts

variable [Trigonometry] {c : Canvas} {segments : List Segment} {g : Generator}

/-- An engine forgets what it has said about an earlier row. -/
theorem Engine.run_layout_eq (c : Canvas) (segments : List Segment) (engine : Engine) :
    (Engine.layout c segments).run engine =
      (Engine.layout c segments).run ⟨engine.generator, []⟩ :=
  rfl

namespace Canvas

/-- The layout of a row, with the advice that the engine then holds. -/
def layoutCall (c : Canvas) (segments : List Segment) :
    Engine.Action (List Segment × List Diagnostic) := do
  let placed ← Engine.layout c segments
  return (placed, (← get).diagnostics)

/-- The layout of a new engine, with its advice. -/
def layoutAlone (c : Canvas) (segments : List Segment) (g : Generator) :
    Except Failure (List Segment × List Diagnostic) :=
  (c.layout g segments).map fun l => (l.segments, l.diagnostics)

theorem run_layoutCall {l : Layout} {engine : Engine}
    (h : c.layout engine.generator segments = .ok l) :
    (c.layoutCall segments).run engine =
      .ok (l.segments, l.diagnostics) ⟨l.generator, l.diagnostics⟩ := by
  have hrun := layout_eq_ok_iff_run.1 h
  rw [← Engine.run_layout_eq] at hrun
  rw [layoutCall, run_bind_of_ok hrun]
  rfl

theorem HasDoubles.answeredAlone (hc : c.HasDoubles) (h : c.SearchesEnd g segments) :
    AnsweredAlone c.layoutCall Engine.generator taggedCount c.layoutAlone segments g := by
  rintro engine rfl
  obtain ⟨l, hl⟩ := hc.settles_of_searchesEnd h
  rw [Session.answer_of_ok (run_layoutCall hl), layoutAlone, hl]
  exact ⟨rfl, layout_generator hl⟩

end Canvas

end Layouts

/-! ## All sessions -/

/-- A tagged text, a value that is no text, and a tagged text between words. -/
def threeCalls : List Composition.Call :=
  [⟨.text "A<1L1R1>", .int 0, Canvas.smallCanvas⟩, ⟨.null, .int 0, Canvas.smallCanvas⟩,
    ⟨.text "B <1L1R1> C", .int 0, Canvas.smallCanvas⟩]

theorem searchesEnd_threeCalls {call : Composition.Call} (h : call ∈ threeCalls) (g : Generator) :
    call.SearchesEnd g := by
  have hcanvas : call.canvas = Canvas.smallCanvas := by
    simp only [threeCalls, List.mem_cons, List.not_mem_nil, or_false] at h
    rcases h with rfl | rfl | rfl <;> rfl
  rw [Composition.Call.SearchesEnd, hcanvas]
  exact ⟨Canvas.hasDoubles_smallCanvas, fun s _ => Canvas.searchesEnd_smallCanvas g _⟩

/-- The segments of a tagged letter. -/
def letterRow : List Segment := (Script.read "A<1L1R1>".toList).segments

end KineticText
