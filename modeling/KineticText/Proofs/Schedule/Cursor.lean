import KineticText.Schedule
import Mathlib.Data.List.Basic

/-!
# The cursor of a schedule

`Schedule.assignFrom` carries two times along: the cursor, at which the next
segment starts, and the total.  `cursorAfter` is the cursor behind a list of
segments.  The segments themselves are scheduled one by one: each gets its
times from the cursor behind the segments in front of it
(`getElem?_assignFrom`), and the total is the largest of their ends
(`snd_assignFrom`).
-/

namespace KineticText

namespace Schedule

/-- A segment that starts at a cursor. -/
def timedAt (cursor : Decimal) (s : Segment) : Segment :=
  { s with start := .real cursor.toBinary64, duration := .real (secondsOf s).toBinary64 }

/-- The cursor behind segments. -/
def cursorAfter (gap cursor : Decimal) (segments : List Segment) : Decimal :=
  segments.foldl (fun cursor s => cursor + (secondsOf s + gap)) cursor

/-- The ends of segments that are scheduled from a cursor on. -/
def ends (gap cursor : Decimal) (segments : List Segment) : List Decimal :=
  segments.mapIdx fun k s => cursorAfter gap cursor (segments.take k) + secondsOf s

variable {gap cursor total : Decimal} {s : Segment} {segments : List Segment}

@[simp] theorem cursorAfter_nil : cursorAfter gap cursor [] = cursor := rfl

@[simp] theorem cursorAfter_cons :
    cursorAfter gap cursor (s :: segments) =
      cursorAfter gap (cursor + (secondsOf s + gap)) segments := by
  rw [cursorAfter, List.foldl_cons, cursorAfter]

theorem cursorAfter_concat :
    cursorAfter gap cursor (segments ++ [s]) =
      cursorAfter gap cursor segments + (secondsOf s + gap) := by
  rw [cursorAfter, List.foldl_append]
  rfl

theorem ends_cons :
    ends gap cursor (s :: segments) =
      (cursor + secondsOf s) :: ends gap (cursor + (secondsOf s + gap)) segments := by
  rw [ends, List.mapIdx_cons]
  rfl

theorem assignFrom_cons :
    assignFrom gap cursor total (s :: segments) =
      (timedAt cursor s ::
          (assignFrom gap (cursor + (secondsOf s + gap)) (total.larger (cursor + secondsOf s))
            segments).1,
        (assignFrom gap (cursor + (secondsOf s + gap)) (total.larger (cursor + secondsOf s))
          segments).2) := rfl

/-- The total is the largest end. -/
theorem snd_assignFrom (gap cursor total : Decimal) (segments : List Segment) :
    (assignFrom gap cursor total segments).2 =
      (ends gap cursor segments).foldl Decimal.larger total := by
  induction segments generalizing cursor total with
  | nil => rfl
  | cons s segments ih => rw [assignFrom_cons, ih, ends_cons, List.foldl_cons]

/-- Times are given one by one: the total has no part in them. -/
theorem fst_assignFrom (gap cursor total : Decimal) (segments : List Segment) :
    (assignFrom gap cursor total segments).1 =
      segments.mapIdx fun k s => timedAt (cursorAfter gap cursor (segments.take k)) s := by
  induction segments generalizing cursor total with
  | nil => rfl
  | cons s segments ih =>
    rw [assignFrom_cons, ih, List.mapIdx_cons]
    rfl

/-- A schedule goes on where the one of the segments in front ends. -/
theorem assignFrom_append (gap cursor total : Decimal) (xs ys : List Segment) :
    assignFrom gap cursor total (xs ++ ys) =
      let first := assignFrom gap cursor total xs
      let second := assignFrom gap (cursorAfter gap cursor xs) first.2 ys
      (first.1 ++ second.1, second.2) := by
  induction xs generalizing cursor total with
  | nil => rfl
  | cons s xs ih =>
    rw [List.cons_append, assignFrom_cons, ih, assignFrom_cons, cursorAfter_cons]
    rfl

/-- Nothing about a segment is changed but its times. -/
theorem forall₂_assignFrom (gap cursor total : Decimal) (segments : List Segment) :
    List.Forall₂ (fun s t => t = { s with start := t.start, duration := t.duration }) segments
      (assignFrom gap cursor total segments).1 := by
  induction segments generalizing cursor total with
  | nil => exact .nil
  | cons s segments ih => exact .cons rfl (ih ..)

end Schedule

end KineticText
