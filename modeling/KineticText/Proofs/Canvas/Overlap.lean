import KineticText.Canvas.PowerSeries
import KineticText.Proofs.Canvas.Search

/-!
# Texts side by side

A text without a tag is put where the search finds a place inside the margins
whose box overlaps none of the boxes before it.  The search looks at boxes with
rounded sides, and the place it finds is pulled inside the margins once more.
The first does no harm: what is apart from a rounded box is apart from the box
(`Box.not_overlaps_of_rounded`).  The second one does, where a sum rounds in
the search and a difference rounds the other way at the margin: the text is
moved, and may touch another one (`layout_touching`).  Where it is not moved,
it overlaps nothing (`layout_apart`).

There are four groups: boxes, the search, one step, and layouts.
-/

namespace KineticText

/-! ## Boxes -/

namespace Box

theorem eq_around_of_eq_ok {place : Position} {e : Extent} {spacing : Quantity} {b : Box}
    (h : Box.of place e spacing = .ok b) : b = around place e spacing := by
  rw [Box.of] at h
  split_ifs at h
  cases h
  rfl

theorem not_overlaps_iff {a b : Box} :
    a.overlaps b = false ↔
      a.right < b.left ∨ b.right < a.left ∨ a.bottom < b.top ∨ b.bottom < a.top := by
  rw [overlaps, Bool.not_eq_false']
  simp only [Bool.or_eq_true, decide_eq_true_eq, or_assoc]

/-- The box of a text at a place between doubles has doubles for its sides. -/
theorem exists_around_eq (x y : Binary64) (e : Extent) (spacing : Quantity) :
    ∃ left top right bottom, around ⟨.real x, .real y⟩ e spacing =
      ⟨.real left, .real top, .real right, .real bottom⟩ :=
  ⟨_, _, _, _, rfl⟩

/-- What is apart from a rounded box is apart from the box. -/
theorem not_overlaps_of_rounded {a b : Box} {left top right bottom : Binary64}
    (ha : a = ⟨.real left, .real top, .real right, .real bottom⟩)
    (h : a.overlaps b.rounded = false) : a.overlaps b = false := by
  rw [not_overlaps_iff, ha] at h ⊢
  exact h.imp Quantity.lt_of_lt_rounded <| .imp Quantity.lt_of_rounded_lt <|
    .imp Quantity.lt_of_lt_rounded Quantity.lt_of_rounded_lt

end Box

namespace Canvas

/-! ## The search -/

variable {c : Canvas} {directions : Except Failure (List (Binary64 × Binary64))} {e : Extent}
  {occupied : List Box} {g : Generator} {s : Segment} {segments : List Segment} {r : Placing}
  {rs : List Placing} {place : Position} {k : ℕ}

/-- Places on a ring are doubles, so that the search may round boxes. -/
theorem freePlace_of_search {rings : List (Binary64 × Binary64)}
    (h : c.search rings e occupied = .found place) : c.FreePlace e occupied place := by
  obtain ⟨n, -, -, hring⟩ := search_eq_found_iff.1 h
  obtain ⟨hfree, direction, -, hplace⟩ := exists_of_freeOnRing? hring
  refine ⟨hfree.inside, fun b hb => ?_⟩
  have hrounded := hfree.apart _ (List.mem_map_of_mem hb)
  obtain ⟨x, y, hreal⟩ := exists_ringPlace_eq c e (c.radiusAt n) direction
  obtain ⟨left, top, right, bottom, haround⟩ := Box.exists_around_eq x y e c.minSpacing
  rw [← hreal, hplace] at haround
  exact Box.not_overlaps_of_rounded haround hrounded

/-! ## One step -/

/-- The box of a segment at the place it has. -/
def boxOf (c : Canvas) (s : Segment) : Except Failure Box := do
  let e ← c.extentOf s.text
  Box.of s.position e c.minSpacing

theorem Places.boxOf_eq (h : c.Places directions occupied g s r) :
    c.boxOf r.segment = .ok r.box := by
  obtain ⟨hextent, -, -, hbox⟩ := h
  exact bind_eq_ok_iff.2 ⟨_, hextent, hbox⟩

/-- A place that is chosen for a segment without a tag, and without advice, is
what a search has found. -/
theorem Chooses.exists_search {advice : List Diagnostic} {g' : Generator}
    (h : c.Chooses directions occupied g s e place advice g') (htag : s.isTagged = false)
    (hadvice : advice = []) :
    ∃ rings, directions = .ok rings ∧ c.search rings e occupied = .found place := by
  cases h with
  | tagged hs => cases htag.symm.trans hs
  | free _ hfree => exact exists_search_of_freePlace? hfree
  | middle => cases hadvice

/-- A segment without a tag and without advice has been put at the place that a
search has found, pulled inside the margins. -/
theorem Places.exists_search (h : c.Places directions occupied g s r)
    (htag : s.isTagged = false) (hadvice : r.advice = []) :
    ∃ e rings place, c.extentOf s.text = .ok e ∧ directions = .ok rings ∧
      c.search rings e occupied = .found place ∧
        r.segment.position = c.pulledInside e place ∧
          r.box = Box.around r.segment.position e c.minSpacing := by
  obtain ⟨hextent, hchoose, -, hbox⟩ := h
  obtain ⟨rings, hrings, hsearch⟩ := hchoose.exists_search htag hadvice
  exact ⟨_, rings, _, hextent, hrings, hsearch, rfl, Box.eq_around_of_eq_ok hbox⟩

theorem Run.boxOf_eq (h : c.Run directions occupied g segments rs) :
    ∀ r ∈ rs, c.boxOf r.segment = .ok r.box := by
  induction h with
  | nil => simp
  | cons hstep _ ih =>
    intro r hr
    rcases List.mem_cons.1 hr with rfl | hr
    · exact hstep.boxOf_eq
    · exact ih r hr

/-- A segment of a run is placed beside the boxes of those before it. -/
theorem Run.exists_places (h : c.Run directions occupied g segments rs)
    (hs : segments[k]? = some s) :
    ∃ g' r, rs[k]? = some r ∧ c.Places directions (boxesAfter occupied (rs.take k)) g' s r := by
  induction h generalizing k with
  | nil => cases hs
  | @cons occupied g first rest r rs hstep _ ih =>
    cases k with
    | zero =>
      cases hs
      exact ⟨g, r, rfl, hstep⟩
    | succ k =>
      obtain ⟨g', r', hr', hplaces⟩ := ih hs
      refine ⟨g', r', hr', ?_⟩
      simpa [boxesAfter] using hplaces

/-! ## Layouts -/

/-- Two letters of width two. -/
def twoLetters : List Segment := [{ text := ['a'], index := 0 }, { text := ['b'], index := 1 }]

/-- A margin of two, and a ring that reaches one rounding step further out than
the margin allows. -/
def tightCanvas : Canvas :=
  { smallCanvas with
    margin := .real 2
    ringStep := .real 2.000000000000001
    margin_nonneg := by decide +kernel
    ringStep_pos := by decide +kernel }

section Layout

variable [Trigonometry]

/-- A text without a tag and without advice was put at the place that the search
beside the texts before it finds, where it overlaps none of them.  If pulling it
inside the margins has not moved it, it overlaps none of them. -/
theorem layout_apart {l : Layout} (h : c.layout g segments = .ok l) (hs : segments[k]? = some s)
    (htag : s.isTagged = false) (hadvice : .layoutOverflow s.text s.index ∉ l.diagnostics) :
    ∃ e rings boxes place t box, c.extentOf s.text = .ok e ∧
      c.searchDirections segments = .ok rings ∧
      List.Forall₂ (fun u b => c.boxOf u = .ok b) (l.segments.take k) boxes ∧
      c.search rings e boxes.reverse = .found place ∧ c.insideMargins e place = true ∧
      l.segments[k]? = some t ∧ t.position = c.pulledInside e place ∧ c.boxOf t = .ok box ∧
      ∀ u ∈ l.segments.take k, ∃ other, c.boxOf u = .ok other ∧
        (Box.around place e c.minSpacing).overlaps other = false ∧
        (t.position = place → box.overlaps other = false) := by
  obtain ⟨rs, hrun, rfl⟩ := layout_eq_ok_iff.1 h
  obtain ⟨g', r, hr, hplaces⟩ := hrun.exists_places hs
  have hnone : r.advice = [] := by
    refine List.eq_nil_iff_forall_not_mem.2 fun d hd => hadvice ?_
    rw [← hplaces.eq_layoutOverflow d hd]
    exact List.mem_flatMap.2 ⟨r, List.mem_of_getElem? hr, hd⟩
  obtain ⟨e, rings, place, hextent, hrings, hsearch, hposition, hbox⟩ :=
    hplaces.exists_search htag hnone
  have hfree := freePlace_of_search hsearch
  have hboxOf : ∀ r ∈ rs.take k, c.boxOf r.segment = .ok r.box := fun r' hr' =>
    hrun.boxOf_eq r' (List.mem_of_mem_take hr')
  rw [boxesAfter, List.append_nil] at hsearch
  refine ⟨e, rings, (rs.take k).map Placing.box, place, r.segment, r.box, hextent, hrings, ?_,
    hsearch, hfree.inside, ?_, hposition, hplaces.boxOf_eq, ?_⟩
  · rw [layoutOf, ← List.map_take, List.forall₂_map_left_iff, List.forall₂_map_right_iff,
      List.forall₂_same]
    exact hboxOf
  · simp [layoutOf, hr]
  · intro u hu
    rw [layoutOf, ← List.map_take] at hu
    obtain ⟨r', hr', rfl⟩ := List.mem_map.1 hu
    have hapart := hfree.apart r'.box
      (List.mem_append_left _ (List.mem_reverse.2 (List.mem_map_of_mem hr')))
    refine ⟨r'.box, hboxOf r' hr', hapart, ?_⟩
    intro hstays
    rwa [hbox, hstays]

end Layout

theorem layout_apart_letters :
    ∃ l, smallCanvas.layout ⟨#[], 0⟩ twoLetters = .ok l ∧
      twoLetters[1]? = some { text := ['b'], index := 1 } ∧
      .layoutOverflow ['b'] 1 ∉ l.diagnostics ∧
      ∃ e rings boxes place t box, smallCanvas.extentOf ['b'] = .ok e ∧
        smallCanvas.searchDirections twoLetters = .ok rings ∧
        List.Forall₂ (fun u b => smallCanvas.boxOf u = .ok b) (l.segments.take 1) boxes ∧
        smallCanvas.search rings e boxes.reverse = .found place ∧
        smallCanvas.insideMargins e place = true ∧ l.segments[1]? = some t ∧
        t.position = smallCanvas.pulledInside e place ∧ smallCanvas.boxOf t = .ok box ∧
        ∀ u ∈ l.segments.take 1, ∃ other, smallCanvas.boxOf u = .ok other ∧
          (Box.around place e smallCanvas.minSpacing).overlaps other = false ∧
          (t.position = place → box.overlaps other = false) := by
  have hlayout : (smallCanvas.layout ⟨#[], 0⟩ twoLetters).map Layout.diagnostics = .ok [] := by
    decide +kernel
  obtain ⟨l, hl, hnone⟩ := map_eq_ok_iff.1 hlayout
  have hadvice : .layoutOverflow ['b'] 1 ∉ l.diagnostics := by
    rw [hnone]
    exact List.not_mem_nil
  have hsecond : twoLetters[1]? = some { text := ['b'], index := 1 } := rfl
  have hapart := layout_apart hl hsecond rfl hadvice
  exact ⟨l, hl, hsecond, hadvice, hapart⟩

/-- The second letter is moved back to the margin, where it touches the first
one. -/
theorem layout_touching :
    ∃ l first second box other, tightCanvas.layout ⟨#[], 0⟩ twoLetters = .ok l ∧
      l.diagnostics = [] ∧ l.segments = [first, second] ∧ second.isTagged = false ∧
      tightCanvas.boxOf second = .ok box ∧ tightCanvas.boxOf first = .ok other ∧
      box.overlaps other = true := by
  have hlayout : (tightCanvas.layout ⟨#[], 0⟩ twoLetters).map
        (fun l => (l.diagnostics, l.segments)) =
      .ok ([], [{ text := ['a'], index := 0, position := ⟨.real 4, .real 4⟩ },
        { text := ['b'], index := 1, position := ⟨.real 6, .real 4⟩ }]) := by
    decide +kernel
  have hfirst : tightCanvas.boxOf { text := ['a'], index := 0, position := ⟨.real 4, .real 4⟩ } =
      .ok ⟨.real 4, .real 4, .real 6, .real 6⟩ := by
    decide +kernel
  have hsecond : tightCanvas.boxOf { text := ['b'], index := 1, position := ⟨.real 6, .real 4⟩ } =
      .ok ⟨.real 6, .real 4, .real 8, .real 6⟩ := by
    decide +kernel
  obtain ⟨l, hl, hboth⟩ := map_eq_ok_iff.1 hlayout
  obtain ⟨hnone, hsegments⟩ := Prod.mk.inj hboth
  exact ⟨l, _, _, _, _, hl, hnone, hsegments, rfl, hsecond, hfirst, by decide +kernel⟩

end Canvas

end KineticText
