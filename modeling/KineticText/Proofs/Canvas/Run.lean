import KineticText.Canvas.Engine
import KineticText.Proofs.Outcome
import Mathlib.Data.List.Forall2

/-!
# Placing texts step by step

An engine places the segments of a row one after another.  `Chooses` says how
the place of one is chosen, `Places` what one step does, with everything it
leaves for the later ones, and `Run` is a row of steps.  An engine has a result
exactly where there is a run, and it is made of what the steps of the run give
(`run_placeAll_eq_ok_iff`), so that a statement about layouts is one about runs,
by induction.

There are four groups: one place, one step, runs, and layouts.  At the end stands
a small canvas to try them on.
-/

namespace KineticText

/-! ## One place -/

theorem Engine.run_draw (engine : Engine) :
    Engine.draw.run engine = .ok engine.generator.uniform.1
      { engine with generator := engine.generator.uniform.2 } :=
  rfl

theorem Engine.run_advise (d : Diagnostic) (engine : Engine) :
    (Engine.advise d).run engine =
      .ok ⟨⟩ { engine with diagnostics := engine.diagnostics ++ [d] } :=
  rfl

/-- What a new engine does is what any engine does that has advised nothing yet. -/
theorem Engine.run_fresh {α : Type} (action : Engine.Action α) (g : Generator) :
    (Engine.fresh action).run g = match action.run ⟨g, []⟩ with
      | .ok a engine => .ok (a, engine.diagnostics) engine.generator
      | .error f engine => .error f engine.generator :=
  rfl

namespace Canvas

section Place

variable (c : Canvas) (directions : Except Failure (List (Binary64 × Binary64)))

/-- The place of a segment of a size is chosen beside boxes, with advice and
with a generator behind the draws: near the middle by two draws if it has a tag,
and else where there is a free place, or in the middle, with advice, where there
is none. -/
inductive Chooses (occupied : List Box) (g : Generator) (s : Segment) (e : Extent) :
    Position → List Diagnostic → Generator → Prop where
  | tagged {range : Binary64} (hs : s.isTagged = true) (hcenter : c.hasCenter = true)
      (hrange : c.jitterRange = .ok range) (hsize : e.hasDoubles = true) :
      Chooses occupied g s e (c.jittered e range g.uniform.1 g.uniform.2.uniform.1) []
        g.uniform.2.uniform.2
  | free {place : Position} (hs : s.isTagged = false)
      (hfree : c.freePlace? directions e occupied = .ok (some place)) :
      Chooses occupied g s e place [] g
  | middle (hs : s.isTagged = false) (hfull : c.freePlace? directions e occupied = .ok none)
      (hcenter : c.hasCenter = true) (hsize : e.hasDoubles = true) :
      Chooses occupied g s e (c.centered e) [.layoutOverflow s.text s.index] g

end Place

section Chosen

variable {c : Canvas} {directions : Except Failure (List (Binary64 × Binary64))}
  {occupied : List Box} {s : Segment} {e : Extent}
  {place : Position} {engine engine' : Engine}

theorem jitterRange_eq_ok_iff {range : Binary64} :
    c.jitterRange = .ok range ↔ ∃ product, c.jitterProduct = .ok product ∧
      product.double = .ok range :=
  bind_eq_ok_iff

theorem run_jitteredPlace_eq_ok_iff :
    (c.jitteredPlace e).run engine = .ok place engine' ↔ c.hasCenter = true ∧
      ∃ range, c.jitterRange = .ok range ∧ e.hasDoubles = true ∧
        c.jittered e range engine.generator.uniform.1 engine.generator.uniform.2.uniform.1 = place ∧
          { engine with generator := engine.generator.uniform.2.uniform.2 } = engine' := by
  simp only [jitteredPlace, run_guard_eq_ok_iff, run_bind_eq_ok_iff, run_lift_eq_ok_iff,
    Engine.run_draw, run_pure_eq_ok_iff, EStateM.Result.ok.injEq, Bool.not_eq_true',
    Bool.not_eq_false, jitterRange_eq_ok_iff]
  constructor
  · rintro ⟨hcenter, product, _, ⟨hproduct, rfl⟩, _, _, ⟨rfl, rfl⟩, range, _, ⟨hrange, rfl⟩,
      _, _, ⟨rfl, rfl⟩, hsize, hplace, hengine⟩
    exact ⟨hcenter, range, ⟨product, hproduct, hrange⟩, hsize, hplace, hengine⟩
  · rintro ⟨hcenter, range, ⟨product, hproduct, hrange⟩, hsize, hplace, hengine⟩
    exact ⟨hcenter, product, _, ⟨hproduct, rfl⟩, _, _, ⟨rfl, rfl⟩, range, _, ⟨hrange, rfl⟩,
      _, _, ⟨rfl, rfl⟩, hsize, hplace, hengine⟩

theorem centeredPlace_eq_ok_iff :
    c.centeredPlace e = .ok place ↔
      c.hasCenter = true ∧ e.hasDoubles = true ∧ c.centered e = place := by
  unfold centeredPlace
  split_ifs with h
  · rw [Bool.and_eq_true] at h
    simp [h]
  · rw [Bool.and_eq_true] at h
    exact iff_of_false (by simp) fun hall => h ⟨hall.1, hall.2.1⟩

/-- What an engine chooses is what `Chooses` says; its advice goes behind the
advice before. -/
theorem run_choosePlace_eq_ok_iff :
    (c.choosePlace directions occupied s e).run engine = .ok place engine' ↔
      ∃ advice,
        c.Chooses directions occupied engine.generator s e place advice engine'.generator ∧
          engine'.diagnostics = engine.diagnostics ++ advice := by
  obtain ⟨g, diagnostics⟩ := engine
  unfold choosePlace
  split_ifs with hs
  · rw [run_jitteredPlace_eq_ok_iff]
    constructor
    · rintro ⟨hcenter, range, hrange, hsize, rfl, rfl⟩
      exact ⟨[], .tagged hs hcenter hrange hsize, (List.append_nil _).symm⟩
    · rintro ⟨advice, hchoose, hdiagnostics⟩
      obtain ⟨g', diagnostics'⟩ := engine'
      cases hchoose with
      | tagged _ hcenter hrange hsize =>
        obtain rfl : diagnostics' = diagnostics := hdiagnostics.trans (List.append_nil _)
        exact ⟨hcenter, _, hrange, hsize, rfl, rfl⟩
      | free htag | middle htag => cases hs.symm.trans htag
  · rw [Bool.not_eq_true] at hs
    simp only [run_bind_eq_ok_iff, run_lift_eq_ok_iff]
    constructor
    · rintro ⟨found, _, ⟨hfound, rfl⟩, h⟩
      cases found with
      | some free =>
        obtain ⟨rfl, rfl⟩ := run_pure_eq_ok_iff.1 h
        exact ⟨[], .free hs hfound, (List.append_nil _).symm⟩
      | none =>
        simp only [run_bind_eq_ok_iff, Engine.run_advise, EStateM.Result.ok.injEq,
          run_lift_eq_ok_iff, centeredPlace_eq_ok_iff] at h
        obtain ⟨_, _, ⟨-, rfl⟩, ⟨hcenter, hsize, rfl⟩, rfl⟩ := h
        exact ⟨_, .middle hs hfound hcenter hsize, rfl⟩
    · rintro ⟨advice, hchoose, hdiagnostics⟩
      obtain ⟨g', diagnostics'⟩ := engine'
      obtain rfl : diagnostics' = diagnostics ++ advice := hdiagnostics
      cases hchoose with
      | tagged htag => cases hs.symm.trans htag
      | free _ hfree =>
        exact ⟨some place, _, ⟨hfree, rfl⟩, run_pure_eq_ok_iff.2 ⟨rfl, by rw [List.append_nil]⟩⟩
      | middle _ hfull hcenter hsize =>
        refine ⟨none, _, ⟨hfull, rfl⟩, run_bind_eq_ok_iff.2 ⟨_, _, Engine.run_advise .., ?_⟩⟩
        exact run_lift_eq_ok_iff.2 ⟨centeredPlace_eq_ok_iff.2 ⟨hcenter, hsize, rfl⟩, rfl⟩

/-- A place without a tag is chosen without a draw, also where none is found. -/
theorem generator_of_choosePlace_error {f : Failure} (hs : s.isTagged = false)
    (h : (c.choosePlace directions occupied s e).run engine = .error f engine') :
    engine'.generator = engine.generator := by
  rw [choosePlace, hs, if_neg Bool.false_ne_true, run_bind_eq_error_iff] at h
  rcases h with hsearch | ⟨found, _, hfound, h⟩
  · obtain ⟨-, rfl⟩ := run_lift_eq_error_iff.1 hsearch
    rfl
  · obtain ⟨-, rfl⟩ := run_lift_eq_ok_iff.1 hfound
    cases found with
    | some => cases h
    | none =>
      rcases run_bind_eq_error_iff.1 h with hadvise | ⟨_, _, hadvise, hplace⟩
      · cases hadvise
      · cases hadvise
        obtain ⟨-, rfl⟩ := run_lift_eq_error_iff.1 hplace
        rfl

end Chosen

/-! ## One step -/

end Canvas

/-- What the placing of one segment gives. -/
structure Placing where
  /-- The segment at its place. -/
  segment : Segment
  advice : List Diagnostic
  box : Box
  /-- The generator after its draws. -/
  generator : Generator

namespace Canvas

section Step

variable (c : Canvas) (directions : Except Failure (List (Binary64 × Binary64)))

/-- A segment is placed beside boxes: a place is chosen and pulled inside the
margins, and the box is that of the text there. -/
inductive Places (occupied : List Box) (g : Generator) (s : Segment) : Placing → Prop where
  | intro {e : Extent} {place : Position} {advice : List Diagnostic} {g' : Generator} {box : Box}
      (hextent : c.extentOf s.text = .ok e)
      (hchoose : c.Chooses directions occupied g s e place advice g')
      (hroom : c.hasRoom e = true)
      (hbox : Box.of (c.pulledInside e place) e c.minSpacing = .ok box) :
      Places occupied g s ⟨{ s with position := c.pulledInside e place }, advice, box, g'⟩

/-! ## Runs -/

/-- Segments are placed one after another, each beside the boxes of all before
it. -/
inductive Run : List Box → Generator → List Segment → List Placing → Prop where
  | nil (occupied : List Box) (g : Generator) : Run occupied g [] []
  | cons {occupied : List Box} {g : Generator} {s : Segment} {rest : List Segment} {r : Placing}
      {rs : List Placing} (hstep : Places c directions occupied g s r)
      (hrest : Run (r.box :: occupied) r.generator rest rs) : Run occupied g (s :: rest) (r :: rs)

end Step

/-- The boxes behind steps, the last one first. -/
def boxesAfter (occupied : List Box) (rs : List Placing) : List Box :=
  (rs.map Placing.box).reverse ++ occupied

def generatorAfter (g : Generator) (rs : List Placing) : Generator :=
  rs.foldl (fun _ r => r.generator) g

section Run

variable {c : Canvas} {directions : Except Failure (List (Binary64 × Binary64))}
  {occupied : List Box} {g : Generator} {s : Segment} {segments xs ys : List Segment}
  {r : Placing} {rs : List Placing} {engine engine' : Engine}

theorem run_append_iff :
    Run c directions occupied g (xs ++ ys) rs ↔ ∃ first second, rs = first ++ second ∧
      Run c directions occupied g xs first ∧
        Run c directions (boxesAfter occupied first) (generatorAfter g first) ys second := by
  induction xs generalizing occupied g rs with
  | nil =>
    constructor
    · intro h
      exact ⟨[], rs, rfl, .nil .., h⟩
    · intro h
      obtain ⟨first, second, rfl, hfirst, hsecond⟩ := h
      cases hfirst
      exact hsecond
  | cons s xs ih =>
    constructor
    · intro h
      cases h with
      | cons hstep hrest =>
        obtain ⟨first, second, rfl, hfirst, hsecond⟩ := ih.1 hrest
        refine ⟨_ :: first, second, rfl, .cons hstep hfirst, ?_⟩
        simpa [boxesAfter, generatorAfter] using hsecond
    · intro h
      obtain ⟨first, second, rfl, hfirst, hsecond⟩ := h
      cases hfirst with
      | cons hstep hrest =>
        refine .cons hstep (ih.2 ⟨_, second, rfl, hrest, ?_⟩)
        simpa [boxesAfter, generatorAfter] using hsecond

/-- Neither rings nor boxes have a part in the place of a tagged segment. -/
theorem Chooses.of_isTagged {e : Extent} {place : Position} {advice : List Diagnostic}
    {g' : Generator} (h : c.Chooses directions occupied g s e place advice g')
    (hs : s.isTagged = true) (directions' : Except Failure (List (Binary64 × Binary64)))
    (occupied' : List Box) : c.Chooses directions' occupied' g s e place advice g' := by
  cases h with
  | tagged _ hcenter hrange hsize => exact .tagged hs hcenter hrange hsize
  | free htag | middle htag => cases hs.symm.trans htag

/-- A tagged segment is placed without looking for a free place: neither rings
nor the boxes before it have a part in it. -/
theorem Places.of_isTagged (h : Places c directions occupied g s r) (hs : s.isTagged = true)
    (directions' : Except Failure (List (Binary64 × Binary64))) (occupied' : List Box) :
    Places c directions' occupied' g s r := by
  obtain ⟨hextent, hchoose, hroom, hbox⟩ := h
  exact ⟨hextent, hchoose.of_isTagged hs directions' occupied', hroom, hbox⟩

theorem Run.of_isTagged (h : Run c directions occupied g segments rs)
    (hsegments : ∀ s ∈ segments, s.isTagged = true)
    (directions' : Except Failure (List (Binary64 × Binary64))) :
    Run c directions' occupied g segments rs := by
  induction h with
  | nil => exact .nil ..
  | cons hstep _ ih =>
    exact .cons (hstep.of_isTagged (hsegments _ (by simp)) directions' _)
      (ih fun s hs => hsegments s (by simp [hs]))

/-- A tagged segment is placed without advice. -/
theorem Places.advice_of_isTagged (h : Places c directions occupied g s r)
    (hs : s.isTagged = true) : r.advice = [] := by
  obtain ⟨-, hchoose, -, -⟩ := h
  cases hchoose with
  | tagged => rfl
  | free htag | middle htag => cases hs.symm.trans htag

/-- The only advice is that there is no free place. -/
theorem Places.eq_layoutOverflow (h : Places c directions occupied g s r) :
    ∀ d ∈ r.advice, d = .layoutOverflow s.text s.index := by
  obtain ⟨-, hchoose, -, -⟩ := h
  cases hchoose <;> simp

/-- Times play no part in placing. -/
theorem Places.retimed (h : Places c directions occupied g s r) (start duration : Quantity) :
    Places c directions occupied g { s with start, duration }
      { r with segment := { r.segment with start, duration } } := by
  obtain ⟨hextent, hchoose, hroom, hbox⟩ := h
  refine ⟨hextent, ?_, hroom, hbox⟩
  cases hchoose with
  | tagged hs hcenter hrange hsize => exact .tagged hs hcenter hrange hsize
  | free hs hfree => exact .free hs hfree
  | middle hs hfull hcenter hsize => exact .middle hs hfull hcenter hsize

theorem Run.retimed (h : Run c directions occupied g segments rs) {others : List Segment}
    (hothers : List.Forall₂ (fun s t => t = { s with start := t.start, duration := t.duration })
      segments others) : ∃ rs', Run c directions occupied g others rs' := by
  induction h generalizing others with
  | nil =>
    cases hothers
    exact ⟨[], .nil ..⟩
  | cons hstep _ ih =>
    cases hothers with
    | cons ht hothers =>
      obtain ⟨rs', hrun⟩ := ih hothers
      rw [ht]
      exact ⟨_, .cons (hstep.retimed ..) hrun⟩

theorem all_isTagged_retimed {others : List Segment}
    (hothers : List.Forall₂ (fun s t => t = { s with start := t.start, duration := t.duration })
      segments others) : others.all Segment.isTagged = segments.all Segment.isTagged := by
  induction hothers with
  | nil => rfl
  | cons ht _ ih =>
    rw [List.all_cons, List.all_cons, ih, ht]
    rfl

theorem Run.advice_of_isTagged (h : Run c directions occupied g segments rs)
    (hsegments : ∀ s ∈ segments, s.isTagged = true) : rs.flatMap Placing.advice = [] := by
  induction h with
  | nil => rfl
  | cons hstep _ ih =>
    rw [List.flatMap_cons, hstep.advice_of_isTagged (hsegments _ (by simp)),
      ih fun s hs => hsegments s (by simp [hs]), List.nil_append]

/-- Advice is given about segments of the run. -/
theorem Run.eq_layoutOverflow (h : Run c directions occupied g segments rs) :
    ∀ d ∈ rs.flatMap Placing.advice, ∃ s ∈ segments, d = .layoutOverflow s.text s.index := by
  induction h with
  | nil => simp
  | cons hstep _ ih =>
    intro d hd
    rcases List.mem_append.1 (List.flatMap_cons ▸ hd) with hd | hd
    · exact ⟨_, List.mem_cons_self, hstep.eq_layoutOverflow d hd⟩
    · obtain ⟨s, hs, hd⟩ := ih d hd
      exact ⟨s, List.mem_cons_of_mem _ hs, hd⟩

theorem Run.kind_of_mem_advice (h : Run c directions occupied g segments rs) :
    ∀ d ∈ rs.flatMap Placing.advice, d.kind = "layout_overflow" := by
  intro d hd
  obtain ⟨s, -, rfl⟩ := h.eq_layoutOverflow d hd
  rfl

/-- Nothing about a segment is changed but its place. -/
theorem Run.forall₂_segment (h : Run c directions occupied g segments rs) :
    List.Forall₂ (fun s r => r.segment = { s with position := r.segment.position }) segments
      rs := by
  induction h with
  | nil => exact .nil
  | cons hstep _ ih =>
    obtain ⟨-, -, -, -⟩ := hstep
    exact .cons rfl ih

/-! ## Layouts -/

/-- The layout that steps make. -/
def layoutOf (g : Generator) (rs : List Placing) : Layout :=
  ⟨rs.map Placing.segment, rs.flatMap Placing.advice, generatorAfter g rs⟩

/-- An engine places a segment where there is a step, and its advice goes behind
the advice before. -/
theorem run_place_eq_ok_iff {placed : Segment × Box} :
    (c.place directions occupied s).run engine = .ok placed engine' ↔
      ∃ r, Places c directions occupied engine.generator s r ∧ placed = (r.segment, r.box) ∧
        engine' = ⟨r.generator, engine.diagnostics ++ r.advice⟩ := by
  simp only [place, run_bind_eq_ok_iff, run_lift_eq_ok_iff, run_choosePlace_eq_ok_iff,
    run_guard_eq_ok_iff, run_pure_eq_ok_iff, Bool.not_eq_true', Bool.not_eq_false]
  constructor
  · rintro ⟨e, _, ⟨hextent, rfl⟩, place, ⟨g', diagnostics'⟩, ⟨advice, hchoose, rfl⟩, hroom, box, _,
      ⟨hbox, rfl⟩, rfl, rfl⟩
    exact ⟨_, ⟨hextent, hchoose, hroom, hbox⟩, rfl, rfl⟩
  · rintro ⟨r, ⟨hextent, hchoose, hroom, hbox⟩, rfl, rfl⟩
    exact ⟨_, _, ⟨hextent, rfl⟩, _, ⟨_, _⟩, ⟨_, hchoose, rfl⟩, hroom, _, _, ⟨hbox, rfl⟩, rfl, rfl⟩

/-- An engine places all segments of a row where there is a run. -/
theorem run_placeAll_eq_ok_iff {placed : List Segment} :
    (c.placeAll directions occupied segments).run engine = .ok placed engine' ↔
      ∃ rs, Run c directions occupied engine.generator segments rs ∧
        placed = rs.map Placing.segment ∧
          engine' = ⟨generatorAfter engine.generator rs,
            engine.diagnostics ++ rs.flatMap Placing.advice⟩ := by
  induction segments generalizing occupied engine placed engine' with
  | nil =>
    rw [placeAll, run_pure_eq_ok_iff]
    constructor
    · rintro ⟨rfl, rfl⟩
      exact ⟨[], .nil .., rfl, by rw [List.flatMap_nil, List.append_nil]; rfl⟩
    · rintro ⟨rs, hrun, rfl, rfl⟩
      cases hrun
      exact ⟨rfl, by rw [List.flatMap_nil, List.append_nil]; rfl⟩
  | cons s segments ih =>
    simp only [placeAll, run_bind_eq_ok_iff, run_place_eq_ok_iff, run_pure_eq_ok_iff]
    constructor
    · rintro ⟨_, _, ⟨r, hstep, rfl, rfl⟩, _, _, hothers, rfl, rfl⟩
      obtain ⟨rs, hrun, rfl, rfl⟩ := ih.1 hothers
      exact ⟨r :: rs, .cons hstep hrun, rfl, by rw [List.flatMap_cons, List.append_assoc]; rfl⟩
    · rintro ⟨rs, hrun, rfl, rfl⟩
      cases hrun with
      | @cons _ _ _ _ r rs hstep hrest =>
        refine ⟨_, _, ⟨r, hstep, rfl, rfl⟩, _, _, ih.2 ⟨rs, hrest, rfl, rfl⟩, rfl, ?_⟩
        rw [List.flatMap_cons, List.append_assoc]
        rfl

section Layout

variable [Trigonometry]

theorem run_layout_eq_ok_iff {placed : List Segment} :
    (Engine.layout c segments).run engine = .ok placed engine' ↔
      ∃ rs, Run c (c.searchDirections segments) [] engine.generator segments rs ∧
        placed = rs.map Placing.segment ∧
          engine' = ⟨generatorAfter engine.generator rs, rs.flatMap Placing.advice⟩ :=
  run_placeAll_eq_ok_iff

/-- A layout is what a new engine makes. -/
theorem layout_eq_ok_iff_fresh {l : Layout} :
    c.layout g segments = .ok l ↔
      (Engine.fresh (Engine.layout c segments)).run g =
        .ok (l.segments, l.diagnostics) l.generator := by
  obtain ⟨placed, diagnostics, generator⟩ := l
  unfold layout
  cases (Engine.fresh (Engine.layout c segments)).run g <;> simp [Prod.ext_iff, and_assoc]

theorem layout_eq_error_iff_fresh {f : Failure} :
    c.layout g segments = .error f ↔ Fails (Engine.fresh (Engine.layout c segments)) g f := by
  unfold layout Fails
  cases (Engine.fresh (Engine.layout c segments)).run g <;> simp

theorem layout_eq_ok_iff_run {l : Layout} :
    c.layout g segments = .ok l ↔
      (Engine.layout c segments).run ⟨g, []⟩ = .ok l.segments ⟨l.generator, l.diagnostics⟩ := by
  obtain ⟨placed, diagnostics, generator⟩ := l
  rw [layout_eq_ok_iff_fresh, Engine.run_fresh]
  cases (Engine.layout c segments).run ⟨g, []⟩ with
  | ok placed' engine =>
    obtain ⟨generator', diagnostics'⟩ := engine
    simp [and_comm, and_assoc]
  | error => simp

theorem layout_eq_ok_iff {l : Layout} :
    c.layout g segments = .ok l ↔
      ∃ rs, Run c (c.searchDirections segments) [] g segments rs ∧ l = layoutOf g rs := by
  obtain ⟨placed, advice, generator⟩ := l
  rw [layout_eq_ok_iff_run, run_layout_eq_ok_iff]
  simp only [layoutOf, Layout.mk.injEq, Engine.mk.injEq, and_comm]

/-- A layout changes nothing about segments but their places. -/
theorem forall₂_layout {l : Layout} (h : c.layout g segments = .ok l) :
    List.Forall₂ (fun s t => t = { s with position := t.position }) segments l.segments := by
  obtain ⟨rs, hrun, rfl⟩ := layout_eq_ok_iff.1 h
  exact List.forall₂_map_right_iff.2 hrun.forall₂_segment

theorem eq_layoutOverflow_of_mem_layout {l : Layout} (h : c.layout g segments = .ok l) :
    ∀ d ∈ l.diagnostics, ∃ s ∈ segments, d = .layoutOverflow s.text s.index := by
  obtain ⟨rs, hrun, rfl⟩ := layout_eq_ok_iff.1 h
  exact hrun.eq_layoutOverflow

theorem kind_of_mem_layout {l : Layout} (h : c.layout g segments = .ok l) :
    ∀ d ∈ l.diagnostics, d.kind = "layout_overflow" := by
  obtain ⟨rs, hrun, rfl⟩ := layout_eq_ok_iff.1 h
  exact hrun.kind_of_mem_advice

/-- The layout of segments has a result. -/
def Settles (c : Canvas) (g : Generator) (segments : List Segment) : Prop :=
  ∃ l, c.layout g segments = .ok l

instance (c : Canvas) (g : Generator) (segments : List Segment) :
    Decidable (c.Settles g segments) :=
  decidable_of_iff ((c.layout g segments).isOk = true) <| by
    rw [Settles]
    cases c.layout g segments <;> simp [Except.isOk, Except.toBool]

theorem Settles.retimed {others : List Segment} (h : c.Settles g segments)
    (hothers : List.Forall₂ (fun s t => t = { s with start := t.start, duration := t.duration })
      segments others) : c.Settles g others := by
  obtain ⟨l, hl⟩ := h
  obtain ⟨rs, hrun, -⟩ := layout_eq_ok_iff.1 hl
  obtain ⟨rs', hrun'⟩ := hrun.retimed hothers
  rw [searchDirections, ← all_isTagged_retimed hothers] at hrun'
  exact ⟨_, layout_eq_ok_iff.2 ⟨rs', hrun', rfl⟩⟩

/-- Segments behind tagged ones leave these where they are. -/
theorem layout_append (hxs : ∀ s ∈ xs, s.isTagged = true) (h : c.Settles g (xs ++ ys)) :
    ∃ first whole rest, c.layout g xs = .ok first ∧ c.layout g (xs ++ ys) = .ok whole ∧
      whole.segments = first.segments ++ rest ∧
      List.Forall₂ (fun s t => t = { s with position := t.position }) ys rest ∧
      first.diagnostics = [] ∧ ∀ d ∈ whole.diagnostics, d.kind = "layout_overflow" := by
  obtain ⟨whole, hwhole⟩ := h
  obtain ⟨rs, hrun, rfl⟩ := layout_eq_ok_iff.1 hwhole
  obtain ⟨front, back, rfl, hfront, hback⟩ := run_append_iff.1 hrun
  refine ⟨layoutOf g front, _, back.map Placing.segment,
    layout_eq_ok_iff.2 ⟨front, hfront.of_isTagged hxs _, rfl⟩, hwhole, by simp [layoutOf], ?_, ?_,
    ?_⟩
  · exact List.forall₂_map_right_iff.2 hback.forall₂_segment
  · exact hfront.advice_of_isTagged hxs
  · exact hrun.kind_of_mem_advice

end Layout

end Run

/-- A canvas of side ten without a margin, with letters of width two, and with
one direction to search in. -/
def smallCanvas : Canvas where
  width := .real 10
  height := .real 10
  margin := .real 0
  minSpacing := .real 0
  lineHeight := .real 1
  centerBias := .real 1
  ringStep := .real 4
  ringSamples := .whole 1
  fontSize := .real 2
  glyphWidthRatio := .real 1
  lineHeightRatio := .real 1
  jitterRatio := .real 1
  width_pos := by decide +kernel
  height_pos := by decide +kernel
  margin_nonneg := by decide +kernel
  minSpacing_nonneg := by decide +kernel
  ringStep_pos := by decide +kernel
  ringSamples_pos := by decide +kernel

end Canvas

end KineticText
