import KineticText.Canvas.PowerSeries
import KineticText.Proofs.Composition.Answer
import KineticText.Proofs.Schedule.Cursor
import KineticText.Proofs.Script.Append

/-!
# Compositions of a text behind another

A text is closed if each of its open brackets belongs to a bracketed text, and
it leaves no group open if each of its segments has a tag.  Such a text is
composed in the same way whatever follows it: all its segments keep their
times and places.  What follows is read as if it stood alone, and only counts
on (`compose_append`).

The stages are taken one by one.  The scan and the reader split at the border
(`Script.read_append`), the schedule goes on from its cursor there
(`Schedule.assignFrom_append`), and the tagged segments in front are placed
without a look at those behind them (`Canvas.layout_append`).
-/

namespace KineticText

/-- A segment has the text and the tag of another, and counts on from `n`
segments before it. -/
structure Segment.CountsOn (n : ℕ) (s t : Segment) : Prop where
  text : t.text = s.text
  tag : t.tag = s.tag
  index : t.index = n + s.index

theorem Segment.CountsOn.placed {n : ℕ} {segments timed placed : List Segment}
    (h : List.Forall₂ (CountsOn n) segments timed)
    (hplaced : List.Forall₂ (fun s t => t = { s with position := t.position }) timed placed) :
    List.Forall₂ (CountsOn n) segments placed := by
  induction h generalizing placed with
  | nil =>
    cases hplaced
    exact .nil
  | cons hs _ ih =>
    cases hplaced with
    | cons ht hplaced =>
      refine .cons ?_ (ih hplaced)
      rw [ht]
      exact ⟨hs.text, hs.tag, hs.index⟩

namespace Composition

variable {a b s : List Char} {gap : Datum} {γ : Decimal} {c : Canvas} {g : Generator} {l : Layout}

/-- The segments of a text behind a closed one get their times behind those of
the closed one. -/
theorem assign_read_append (hclosed : Tag.IsClosed a) (hgroup : Script.LeavesNoGroup a)
    (b : List Char) (γ : Decimal) :
    ∃ timed, (Schedule.assign γ (Script.read (a ++ b)).segments).1 =
        (Schedule.assign γ (Script.read a).segments).1 ++ timed ∧
      List.Forall₂ (Segment.CountsOn (Script.read a).segments.length) (Script.read b).segments
        timed := by
  rw [Script.read_append hclosed hgroup, Schedule.assign, Schedule.assignFrom_append]
  refine ⟨_, rfl, ?_⟩
  refine (List.forall₂_map_left_iff.1 (Schedule.forall₂_assignFrom ..)).imp ?_
  intro s t h
  rw [h]
  exact ⟨rfl, rfl, Nat.add_comm ..⟩

theorem isTagged_assign (hgroup : Script.LeavesNoGroup a) (γ : Decimal) :
    ∀ s ∈ (Schedule.assign γ (Script.read a).segments).1, s.isTagged = true := by
  have hall := Canvas.all_isTagged_retimed
    (Schedule.forall₂_assignFrom γ (.ofInt 0) (.ofInt 0) (Script.read a).segments)
  rw [List.all_eq_true.2 hgroup] at hall
  exact List.all_eq_true.1 hall

/-- A text behind a closed one that leaves no group open changes nothing about
the composition of that one, as long as places are found at all. -/
theorem compose_append [Trigonometry] (hclosed : Tag.IsClosed a) (hgroup : Script.LeavesNoGroup a)
    (b : List Char) :
    Token.scan (a ++ b) = Token.scan a ++ Token.scan b ∧
      (Script.read (a ++ b)).diagnostics = (Script.read a).diagnostics ++
        (Script.read b).diagnostics.map (Diagnostic.shifted (Token.scan a).length) ∧
      ∀ {gap : Datum} {γ : Decimal} {c : Canvas} {g : Generator}, Schedule.gapOf gap = .ok γ →
        c.Settles g (Script.read (a ++ b)).segments →
        ∃ part whole g₁ g₂ rest advice,
          compose (.text (String.ofList a)) gap c g = .ok (part, g₁) ∧
          compose (.text (String.ofList (a ++ b))) gap c g = .ok (whole, g₂) ∧
          whole.segments = part.segments ++ rest ∧
          List.Forall₂ (Segment.CountsOn part.segments.length) (Script.read b).segments rest ∧
          part.diagnostics = (Script.read a).diagnostics ∧
          whole.diagnostics = (Script.read (a ++ b)).diagnostics ++ advice ∧
          ∀ d ∈ advice, d.kind = "layout_overflow" := by
  have hread := Script.read_append hclosed hgroup b
  refine ⟨Script.scan_append_of_leavesNoGroup hclosed hgroup b, by rw [hread], ?_⟩
  intro gap γ c g hgap hsettles
  obtain ⟨timed, htimed, hback⟩ := assign_read_append hclosed hgroup b γ
  have hwhole := hsettles.retimed (Schedule.forall₂_assignFrom γ (.ofInt 0) (.ofInt 0) _)
  rw [show (Schedule.assignFrom γ _ _ _).1 = _ from htimed] at hwhole
  obtain ⟨first, whole, rest, hfirst, hl, hsegments, hplaced, hnone, hadvice⟩ :=
    Canvas.layout_append (isTagged_assign hgroup γ) hwhole
  have hlength : first.segments.length = (Script.read a).segments.length := by
    rw [← (Canvas.forall₂_layout hfirst).length_eq]
    exact (Schedule.forall₂_assignFrom ..).length_eq.symm
  rw [← htimed] at hl
  refine ⟨_, _, _, _, rest, whole.diagnostics, compose_of_layout hgap hfirst,
    compose_of_layout hgap hl, hsegments, ?_, ?_, rfl, hadvice⟩
  · rw [← hlength] at hback
    exact Segment.CountsOn.placed hback hplaced
  · simp [hnone]

def taggedLetter : List Char := ['A', '<', '1', 'L', '1', 'R', '1', '>']

/-- A word behind a tagged one, which overlaps it by half a second. -/
theorem compose_append_word :
    Tag.IsClosed taggedLetter ∧ Script.LeavesNoGroup taggedLetter ∧
      Schedule.gapOf (.text "-0.5") = .ok ⟨true, 5, -1⟩ ∧
      Canvas.smallCanvas.Settles ⟨#[], 0⟩ (Script.read (taggedLetter ++ ['B'])).segments ∧
      ∃ part whole g₁ g₂ rest advice,
        compose (.text (String.ofList taggedLetter)) (.text "-0.5") Canvas.smallCanvas ⟨#[], 0⟩ =
          .ok (part, g₁) ∧
        compose (.text (String.ofList (taggedLetter ++ ['B']))) (.text "-0.5") Canvas.smallCanvas
          ⟨#[], 0⟩ = .ok (whole, g₂) ∧
        whole.segments = part.segments ++ rest ∧
        List.Forall₂ (Segment.CountsOn part.segments.length) (Script.read ['B']).segments rest ∧
        part.diagnostics = (Script.read taggedLetter).diagnostics ∧
        whole.diagnostics = (Script.read (taggedLetter ++ ['B'])).diagnostics ++ advice ∧
        ∀ d ∈ advice, d.kind = "layout_overflow" := by
  have hclosed : Tag.IsClosed taggedLetter := by decide +kernel
  have hgroup : Script.LeavesNoGroup taggedLetter := by decide +kernel
  have hgap : Schedule.gapOf (.text "-0.5") = .ok ⟨true, 5, -1⟩ := by decide +kernel
  have hsettles :
      Canvas.smallCanvas.Settles ⟨#[], 0⟩ (Script.read (taggedLetter ++ ['B'])).segments := by
    decide +kernel
  exact ⟨hclosed, hgroup, hgap, hsettles, (compose_append hclosed hgroup ['B']).2.2 hgap hsettles⟩

end Composition

end KineticText
