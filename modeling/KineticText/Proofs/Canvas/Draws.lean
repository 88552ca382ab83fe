import KineticText.Proofs.Canvas.Run

/-!
# The draws of a layout

A tagged segment takes two draws for its place, and one without a tag none: the
search on the rings never draws.  So a layout leaves the generator two draws
further for each tagged segment (`layout_generator`).

A place near the middle is one of the canvas, of the two draws and of the size
of the text, which is that of its length.  What is placed before it has no part
in it but by the draws it has taken.  So segments without a tag can be left out
of a run (`Run.filter_isTagged`), and tagged texts of the same lengths lie at
the same places (`layout_positions`).

There are four groups: draws and tagged segments, one step, runs, and layouts.
-/

namespace KineticText

/-! ## Draws and tagged segments -/

/-- The generator behind `n` draws. -/
def Generator.advance (g : Generator) : ℕ → Generator
  | 0 => g
  | n + 1 => g.uniform.2.advance n

theorem Generator.advance_add (g : Generator) (m n : ℕ) :
    g.advance (m + n) = (g.advance m).advance n := by
  induction m generalizing g with
  | zero => rw [Nat.zero_add, advance]
  | succ m ih => rw [Nat.succ_add, advance, advance, ih]

def taggedCount (segments : List Segment) : ℕ := segments.countP Segment.isTagged

theorem taggedCount_cons (s : Segment) (segments : List Segment) :
    taggedCount (s :: segments) = taggedCount [s] + taggedCount segments := by
  unfold taggedCount
  rw [List.countP_cons, List.countP_singleton, Nat.add_comm]

/-- The lengths of the tagged texts, in order. -/
def taggedLengths (segments : List Segment) : List ℕ :=
  (segments.filter Segment.isTagged).map (·.text.length)

def taggedPositions (segments : List Segment) : List Position :=
  (segments.filter Segment.isTagged).map Segment.position

/-- A segment has the text of another, and a tag where that one has one. -/
structure Segment.SameText (s t : Segment) : Prop where
  text : t.text = s.text
  isTagged : t.isTagged = s.isTagged

theorem taggedCount_congr {xs ys : List Segment} (h : List.Forall₂ Segment.SameText xs ys) :
    taggedCount ys = taggedCount xs := by
  induction h with
  | nil => rfl
  | cons hst _ ih =>
    unfold taggedCount at ih ⊢
    rw [List.countP_cons, List.countP_cons, hst.isTagged, ih]

theorem taggedLengths_congr {xs ys : List Segment} (h : List.Forall₂ Segment.SameText xs ys) :
    taggedLengths ys = taggedLengths xs := by
  induction h with
  | nil => rfl
  | @cons s t xs ys hst _ ih =>
    unfold taggedLengths at ih ⊢
    by_cases hs : s.isTagged
    · rw [List.filter_cons_of_pos hs, List.filter_cons_of_pos (hst.isTagged.trans hs),
        List.map_cons, List.map_cons, ih, hst.text]
    · rw [List.filter_cons_of_neg hs, List.filter_cons_of_neg (by rwa [hst.isTagged]), ih]

namespace Canvas

variable {c : Canvas} {directions directions' : Except Failure (List (Binary64 × Binary64))}
  {occupied occupied' : List Box} {g : Generator} {s t : Segment} {segments xs ys : List Segment}
  {r r' : Placing} {rs rs' : List Placing} {l l' : Layout}

/-! ## One step -/

theorem extentOf_congr {text text' : List Char} (h : text.length = text'.length) :
    c.extentOf text = c.extentOf text' := by
  unfold extentOf
  rw [h]

/-- A tagged segment takes two draws, and its place is made of them. -/
theorem Places.tagged (h : c.Places directions occupied g s r) (hs : s.isTagged = true) :
    ∃ e range, c.extentOf s.text = .ok e ∧ c.jitterRange = .ok range ∧
      r.segment.position =
        c.pulledInside e (c.jittered e range g.uniform.1 g.uniform.2.uniform.1) ∧
      r.generator = g.advance 2 := by
  obtain ⟨hextent, hchoose, -, -⟩ := h
  cases hchoose with
  | @tagged range _ _ hrange _ => exact ⟨_, range, hextent, hrange, rfl, rfl⟩
  | free htag | middle htag => cases hs.symm.trans htag

/-- The search for a free place makes no draw. -/
theorem Places.untagged (h : c.Places directions occupied g s r) (hs : ¬s.isTagged = true) :
    r.generator = g := by
  obtain ⟨-, hchoose, -, -⟩ := h
  cases hchoose with
  | tagged htag => exact absurd htag hs
  | free | middle => rfl

theorem Places.isTagged_eq (h : c.Places directions occupied g s r) :
    r.segment.isTagged = s.isTagged := by
  obtain ⟨-, -, -, -⟩ := h
  rfl

theorem Places.generator_eq (h : c.Places directions occupied g s r) :
    r.generator = g.advance (2 * taggedCount [s]) := by
  by_cases hs : s.isTagged
  · obtain ⟨-, -, -, -, -, hgenerator⟩ := h.tagged hs
    rw [hgenerator, taggedCount, List.countP_singleton, if_pos hs]
  · rw [h.untagged hs, taggedCount, List.countP_singleton, if_neg hs]
    rfl

/-- Tagged texts of one length are put at one place by one generator. -/
theorem Places.position_eq (h : c.Places directions occupied g s r)
    (h' : c.Places directions' occupied' g t r') (hs : s.isTagged = true)
    (ht : t.isTagged = true) (hlength : s.text.length = t.text.length) :
    r.segment.position = r'.segment.position ∧ r.generator = r'.generator := by
  obtain ⟨e, range, hextent, hrange, hposition, hgenerator⟩ := h.tagged hs
  obtain ⟨e', range', hextent', hrange', hposition', hgenerator'⟩ := h'.tagged ht
  rw [extentOf_congr hlength, hextent'] at hextent
  rw [hrange'] at hrange
  cases hextent
  cases hrange
  rw [hposition, hposition', hgenerator, hgenerator']
  exact ⟨rfl, rfl⟩

/-! ## Runs -/

theorem Run.generator_eq (h : c.Run directions occupied g segments rs) :
    generatorAfter g rs = g.advance (2 * taggedCount segments) := by
  induction h with
  | nil => rfl
  | cons hstep _ ih =>
    rw [taggedCount_cons, Nat.mul_add, Generator.advance_add, ← hstep.generator_eq]
    exact ih

/-- Segments without a tag can be left out of a run. -/
theorem Run.filter_isTagged (h : c.Run directions occupied g segments rs) (occupied' : List Box) :
    c.Run directions occupied' g (segments.filter Segment.isTagged)
      (rs.filter fun r => r.segment.isTagged) := by
  induction h generalizing occupied' with
  | nil => exact .nil ..
  | @cons occupied g s rest r rs hstep _ ih =>
    by_cases hs : s.isTagged
    · rw [List.filter_cons, List.filter_cons, hstep.isTagged_eq, if_pos hs, if_pos hs]
      exact .cons (hstep.of_isTagged hs directions occupied') (ih _)
    · rw [List.filter_cons, List.filter_cons, hstep.isTagged_eq, if_neg hs, if_neg hs,
        ← hstep.untagged hs]
      exact ih occupied'

/-- Tagged texts of the same lengths are put at the same places. -/
theorem Run.positions_eq (h : c.Run directions occupied g xs rs)
    (h' : c.Run directions' occupied' g ys rs') (hxs : ∀ s ∈ xs, s.isTagged = true)
    (hys : ∀ s ∈ ys, s.isTagged = true)
    (hlengths : xs.map (·.text.length) = ys.map (·.text.length)) :
    rs.map (·.segment.position) = rs'.map (·.segment.position) := by
  induction h generalizing occupied' ys rs' with
  | nil =>
    cases h' with
    | nil => rfl
    | cons => cases hlengths
  | cons hstep _ ih =>
    cases h' with
    | nil => cases hlengths
    | cons hstep' hrest' =>
      simp only [List.map_cons, List.cons.injEq, List.mem_cons, forall_eq_or_imp] at hlengths hxs hys
      obtain ⟨hposition, hgenerator⟩ := hstep.position_eq hstep' hxs.1 hys.1 hlengths.1
      rw [hgenerator] at ih
      rw [List.map_cons, List.map_cons, hposition, ih hrest' hxs.2 hys.2 hlengths.2]

/-! ## Layouts -/

variable [Trigonometry]

theorem forall₂_sameText (h : c.layout g segments = .ok l) :
    List.Forall₂ Segment.SameText segments l.segments := by
  refine (forall₂_layout h).imp ?_
  intro s t hst
  rw [hst]
  exact ⟨rfl, rfl⟩

/-- A layout takes two draws for each tagged segment. -/
theorem layout_generator (h : c.layout g segments = .ok l) :
    l.generator = g.advance (2 * taggedCount segments) := by
  obtain ⟨rs, hrun, rfl⟩ := layout_eq_ok_iff.1 h
  exact hrun.generator_eq

/-- Tagged texts of the same lengths lie at the same places, whatever is between
them. -/
theorem layout_positions (h : c.layout g xs = .ok l) (h' : c.layout g ys = .ok l')
    (hlengths : taggedLengths xs = taggedLengths ys) :
    taggedPositions l.segments = taggedPositions l'.segments := by
  obtain ⟨rs, hrun, rfl⟩ := layout_eq_ok_iff.1 h
  obtain ⟨rs', hrun', rfl⟩ := layout_eq_ok_iff.1 h'
  have hpositions := (hrun.filter_isTagged []).positions_eq (hrun'.filter_isTagged [])
    (by simp) (by simp) hlengths
  have hmap (rs : List Placing) : taggedPositions (rs.map Placing.segment) =
      (rs.filter fun r => r.segment.isTagged).map (·.segment.position) := by
    unfold taggedPositions
    rw [List.filter_map, List.map_map]
    rfl
  unfold layoutOf
  rw [hmap, hmap, hpositions]

end Canvas

end KineticText
