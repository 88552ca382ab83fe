import KineticText.Canvas.PowerSeries
import KineticText.Proofs.Canvas.Overlap
import KineticText.Proofs.Composition.Answer
import KineticText.Proofs.Schedule.Cursor

/-!
# Times and places apart

A composition schedules its segments and then places them.  Neither stage has a
part in what the other one gives.  Two runs on one text show it: with another
gap nothing but the starts and the total is another, and with another canvas and
other draws nothing but the places and the advice about them
(`compose_independent`).

The two runs go step by step.  A step of a layout is determined by what it
starts from (`Canvas.Places.unique`), and it looks at no times; so two layouts
of segments that differ in their starts differ in nothing else
(`Canvas.Run.restarted`).  A schedule takes durations from tags, and so a
gap changes starts only (`Schedule.forall₂_assignFrom_restarted`).
-/

namespace KineticText

/-! ## Segments that differ in one thing -/

namespace Segment

/-- A segment that is another one with a start of its own. -/
def Restarted (s t : Segment) : Prop := t = { s with start := t.start }

/-- A segment that is another one with a position of its own. -/
def Moved (s t : Segment) : Prop := t = { s with position := t.position }

theorem Moved.moved {s t u : Segment} (ht : s.Moved t) (hu : s.Moved u) : t.Moved u := by
  rw [Moved, ht]
  exact hu

theorem forall₂_moved {segments xs ys : List Segment} (hxs : List.Forall₂ Moved segments xs)
    (hys : List.Forall₂ Moved segments ys) : List.Forall₂ Moved xs ys := by
  induction hxs generalizing ys with
  | nil =>
    cases hys
    exact .nil
  | cons hs _ ih =>
    cases hys with
    | cons ht hrest => exact .cons (hs.moved ht) (ih hrest)

end Segment

/-! ## Layouts -/

namespace Canvas

variable {c : Canvas} {directions : Except Failure (List (Binary64 × Binary64))}
  {occupied : List Box} {g : Generator} {s : Segment} {segments others : List Segment}
  {r r' : Placing} {rs rs' : List Placing} {l l' : Layout}

/-- The choice of a place is determined by what it starts from. -/
theorem Chooses.unique {e : Extent} {place place' : Position} {advice advice' : List Diagnostic}
    {g₁ g₂ : Generator} (h : c.Chooses directions occupied g s e place advice g₁)
    (h' : c.Chooses directions occupied g s e place' advice' g₂) :
    place' = place ∧ advice' = advice ∧ g₂ = g₁ := by
  have hrun : (c.choosePlace directions occupied s e).run ⟨g, []⟩ = .ok place ⟨g₁, advice⟩ :=
    run_choosePlace_eq_ok_iff.2 ⟨advice, h, rfl⟩
  have hrun' : (c.choosePlace directions occupied s e).run ⟨g, []⟩ = .ok place' ⟨g₂, advice'⟩ :=
    run_choosePlace_eq_ok_iff.2 ⟨advice', h', rfl⟩
  cases hrun.symm.trans hrun'
  exact ⟨rfl, rfl, rfl⟩

/-- A step of a layout is determined by what it starts from. -/
theorem Places.unique (h : c.Places directions occupied g s r)
    (h' : c.Places directions occupied g s r') : r' = r := by
  obtain ⟨hextent, hchoose, -, hbox⟩ := h
  obtain ⟨hextent', hchoose', -, hbox'⟩ := h'
  obtain rfl := Except.ok.inj (hextent.symm.trans hextent')
  obtain ⟨rfl, rfl, rfl⟩ := hchoose.unique hchoose'
  obtain rfl := Except.ok.inj (hbox.symm.trans hbox')
  rfl

/-- Another start of a segment is all that is another behind a step. -/
theorem Places.restarted {start : Quantity} (h : c.Places directions occupied g s r)
    (h' : c.Places directions occupied g { s with start } r') :
    r' = { r with segment := { r.segment with start } } := by
  have hduration : r.segment.duration = s.duration := by
    obtain ⟨-, -, -, -⟩ := h
    rfl
  rw [(h.retimed start s.duration).unique h', ← hduration]

theorem Run.restarted (hothers : List.Forall₂ Segment.Restarted segments others)
    (h : c.Run directions occupied g segments rs) (h' : c.Run directions occupied g others rs') :
    List.Forall₂ Segment.Restarted (rs.map Placing.segment) (rs'.map Placing.segment) ∧
      rs'.flatMap Placing.advice = rs.flatMap Placing.advice ∧
      generatorAfter g rs' = generatorAfter g rs := by
  induction hothers generalizing occupied g rs rs' with
  | nil =>
    cases h
    cases h'
    exact ⟨.nil, rfl, rfl⟩
  | @cons s t segments others ht _ ih =>
    cases h with
    | cons hstep hrest =>
      cases h' with
      | cons hstep' hrest' =>
        rw [ht] at hstep'
        -- Both runs go on from one box and one generator.
        obtain rfl := hstep.restarted hstep'
        obtain ⟨hsegments, hadvice, hgenerator⟩ := ih hrest hrest'
        refine ⟨.cons rfl hsegments, ?_, hgenerator⟩
        rw [List.flatMap_cons, List.flatMap_cons, hadvice]

theorem layout_restarted [Trigonometry] (hothers : List.Forall₂ Segment.Restarted segments others)
    (h : c.layout g segments = .ok l) (h' : c.layout g others = .ok l') :
    List.Forall₂ Segment.Restarted l.segments l'.segments ∧ l'.diagnostics = l.diagnostics ∧
      l'.generator = l.generator := by
  have htagged : others.all Segment.isTagged = segments.all Segment.isTagged :=
    all_isTagged_retimed (hothers.imp fun s t ht => by rw [ht])
  obtain ⟨rs, hrun, rfl⟩ := layout_eq_ok_iff.1 h
  obtain ⟨rs', hrun', rfl⟩ := layout_eq_ok_iff.1 h'
  rw [searchDirections, htagged] at hrun'
  exact Run.restarted hothers hrun hrun'

end Canvas

/-! ## Schedules -/

/-- A gap gives segments other starts, and leaves them their durations. -/
theorem Schedule.forall₂_assignFrom_restarted (gap gap' cursor cursor' total total' : Decimal)
    (segments : List Segment) :
    List.Forall₂ Segment.Restarted (assignFrom gap cursor total segments).1
      (assignFrom gap' cursor' total' segments).1 := by
  induction segments generalizing cursor cursor' total total' with
  | nil => exact .nil
  | cons s segments ih => exact .cons rfl (ih ..)

/-! ## Compositions -/

namespace Composition

theorem exists_layout_assign [Trigonometry] {s : List Char} {c : Canvas} {g : Generator} (γ : Decimal)
    (h : c.Settles g (Script.read s).segments) :
    ∃ l, c.layout g (Schedule.assign γ (Script.read s).segments).1 = .ok l :=
  h.retimed (Schedule.forall₂_assignFrom γ (.ofInt 0) (.ofInt 0) _)

/-- Two compositions of a text whose searches end.  With two gaps they agree in
all but the starts and the total, down to the generator behind them.  On two
canvases and with two generators they agree in all but the positions and the
advice about texts without a free place, which stands behind that of the
reader. -/
theorem compose_independent [Trigonometry] (s : List Char) :
    (∀ {gap gap' : Datum} {γ γ' : Decimal} {c : Canvas} {g : Generator},
      Schedule.gapOf gap = .ok γ → Schedule.gapOf gap' = .ok γ' →
      c.Settles g (Script.read s).segments →
      ∃ r r' k, compose (.text (String.ofList s)) gap c g = .ok (r, k) ∧
        compose (.text (String.ofList s)) gap' c g = .ok (r', k) ∧
        r'.displayText = r.displayText ∧ r'.diagnostics = r.diagnostics ∧
        List.Forall₂ Segment.Restarted r.segments r'.segments) ∧
      ∀ {gap : Datum} {γ : Decimal} {c c' : Canvas} {g g' : Generator},
        Schedule.gapOf gap = .ok γ → c.Settles g (Script.read s).segments →
        c'.Settles g' (Script.read s).segments →
        ∃ r r' k k', compose (.text (String.ofList s)) gap c g = .ok (r, k) ∧
          compose (.text (String.ofList s)) gap c' g' = .ok (r', k') ∧
          r'.displayText = r.displayText ∧ r'.totalDuration = r.totalDuration ∧
          List.Forall₂ Segment.Moved r.segments r'.segments ∧
          ∃ advice advice', r.diagnostics = (Script.read s).diagnostics ++ advice ∧
            r'.diagnostics = (Script.read s).diagnostics ++ advice' ∧
            ∀ d ∈ advice ++ advice', d.kind = "layout_overflow" := by
  refine ⟨?_, ?_⟩
  · intro gap gap' γ γ' c g hgap hgap' hsettles
    obtain ⟨l, hl⟩ := exists_layout_assign γ hsettles
    obtain ⟨l', hl'⟩ := exists_layout_assign γ' hsettles
    obtain ⟨hsegments, hdiagnostics, hgenerator⟩ :=
      Canvas.layout_restarted (Schedule.forall₂_assignFrom_restarted ..) hl hl'
    have hcompose' := compose_of_layout hgap' hl'
    rw [hgenerator] at hcompose'
    refine ⟨_, _, _, compose_of_layout hgap hl, hcompose', rfl, ?_, hsegments⟩
    rw [ofLayout_diagnostics, ofLayout_diagnostics, hdiagnostics]
  · intro gap γ c c' g g' hgap hsettles hsettles'
    obtain ⟨l, hl⟩ := exists_layout_assign γ hsettles
    obtain ⟨l', hl'⟩ := exists_layout_assign γ hsettles'
    refine ⟨_, _, _, _, compose_of_layout hgap hl, compose_of_layout hgap hl', rfl, rfl,
      Segment.forall₂_moved (Canvas.forall₂_layout hl) (Canvas.forall₂_layout hl'),
      l.diagnostics, l'.diagnostics, rfl, rfl, ?_⟩
    exact List.forall_mem_append.2
      ⟨Canvas.kind_of_mem_layout hl, Canvas.kind_of_mem_layout hl'⟩

def tagAndWord : List Char := "A<1L1R1>B".toList

/-- A tagged letter and one without a tag, half a second before and a second
behind its end, and on two canvases with other draws. -/
theorem compose_independent_tagAndWord :
    Schedule.gapOf (.text "-0.5") = .ok ⟨true, 5, -1⟩ ∧
      Schedule.gapOf (.int 1) = .ok ⟨false, 10, -1⟩ ∧
      Canvas.smallCanvas.Settles ⟨#[], 0⟩ (Script.read tagAndWord).segments ∧
      Canvas.tightCanvas.Settles ⟨#[0xffffffff], 0⟩ (Script.read tagAndWord).segments ∧
      (∃ r r' k, compose (.text (String.ofList tagAndWord)) (.text "-0.5") Canvas.smallCanvas
            ⟨#[], 0⟩ = .ok (r, k) ∧
          compose (.text (String.ofList tagAndWord)) (.int 1) Canvas.smallCanvas ⟨#[], 0⟩ =
            .ok (r', k) ∧
          r'.displayText = r.displayText ∧ r'.diagnostics = r.diagnostics ∧
          List.Forall₂ Segment.Restarted r.segments r'.segments) ∧
      ∃ r r' k k', compose (.text (String.ofList tagAndWord)) (.int 1) Canvas.smallCanvas
            ⟨#[], 0⟩ = .ok (r, k) ∧
          compose (.text (String.ofList tagAndWord)) (.int 1) Canvas.tightCanvas
            ⟨#[0xffffffff], 0⟩ = .ok (r', k') ∧
          r'.displayText = r.displayText ∧ r'.totalDuration = r.totalDuration ∧
          List.Forall₂ Segment.Moved r.segments r'.segments ∧
          ∃ advice advice', r.diagnostics = (Script.read tagAndWord).diagnostics ++ advice ∧
            r'.diagnostics = (Script.read tagAndWord).diagnostics ++ advice' ∧
            ∀ d ∈ advice ++ advice', d.kind = "layout_overflow" := by
  have hgap : Schedule.gapOf (.text "-0.5") = .ok ⟨true, 5, -1⟩ := by decide +kernel
  have hgap' : Schedule.gapOf (.int 1) = .ok ⟨false, 10, -1⟩ := by decide +kernel
  have hsettles : Canvas.smallCanvas.Settles ⟨#[], 0⟩ (Script.read tagAndWord).segments := by
    decide +kernel
  have hsettles' :
      Canvas.tightCanvas.Settles ⟨#[0xffffffff], 0⟩ (Script.read tagAndWord).segments := by
    decide +kernel
  obtain ⟨hgaps, hcanvases⟩ := compose_independent tagAndWord
  exact ⟨hgap, hgap', hsettles, hsettles', hgaps hgap hgap' hsettles,
    hcanvases hgap' hsettles hsettles'⟩

end Composition

end KineticText
