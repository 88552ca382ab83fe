import KineticText.Canvas.Placement
import Mathlib.Data.List.Basic

/-!
# The mask of a ring

The places on a ring are checked all at once.  Each side of their boxes is a
column, and a row of the table that compares it with the sides of the other
boxes belongs to one place (`Canvas.validMask`).  This agrees with a check of
each place on its own, box against box (`validMask_eq`).  So the answer of a
ring is its first place inside the margins with a box that overlaps none of the
others (`freeOnRing?_eq`).

There are two groups: tables, and places on a ring.
-/

namespace KineticText

namespace Canvas

variable {c : Canvas} {directions : List (Binary64 × Binary64)} {e : Extent}
  {occupied : List Box} {radius : Binary64} {place : Position}

/-! ## Tables -/

/-- The rows of two tables with a row for each place, put together. -/
theorem zipWith_rows (places : List Position) (boxes : List Box) (p q : Position → Box → Bool) :
    List.zipWith (List.zipWith (· || ·)) (places.map fun place => boxes.map (p place))
        (places.map fun place => boxes.map (q place)) =
      places.map fun place => boxes.map fun box => p place box || q place box := by
  rw [List.zipWith_map, List.zipWith_self]
  refine List.map_congr_left fun place _ => ?_
  rw [List.zipWith_map, List.zipWith_self]

theorem table_map (compare : Quantity → Quantity → Bool) (places : List Position)
    (boxes : List Box) (side : Position → Quantity) (other : Box → Quantity) :
    table compare (places.map side) (boxes.map other) =
      places.map fun place => boxes.map fun box => compare (side place) (other box) := by
  rw [table, List.map_map]
  refine List.map_congr_left fun place _ => ?_
  rw [Function.comp_apply, List.map_map]
  rfl

/-! ## Places on a ring -/

/-- A place inside the margins at which a text overlaps none of the boxes. -/
structure FreePlace (c : Canvas) (e : Extent) (occupied : List Box) (place : Position) : Prop where
  inside : c.insideMargins e place = true
  apart : ∀ b ∈ occupied, (Box.around place e c.minSpacing).overlaps b = false

/-- The check of one place on its own, box against box. -/
def isFree (c : Canvas) (e : Extent) (occupied : List Box) (place : Position) : Bool :=
  c.insideMargins e place &&
    occupied.all fun box => !(Box.around place e c.minSpacing).overlaps box

theorem isFree_iff : c.isFree e occupied place = true ↔ c.FreePlace e occupied place := by
  rw [isFree, Bool.and_eq_true, List.all_eq_true]
  simp only [Bool.not_eq_true']
  exact ⟨fun h => ⟨h.1, h.2⟩, fun h => ⟨h.inside, h.apart⟩⟩

instance (c : Canvas) (e : Extent) (occupied : List Box) (place : Position) :
    Decidable (c.FreePlace e occupied place) :=
  decidable_of_iff _ isFree_iff

/-- The mask of places is the check of each of them. -/
theorem validMask_eq (places : List Position) :
    c.validMask e occupied places = places.map (c.isFree e occupied) := by
  unfold validMask
  by_cases hempty : occupied.isEmpty
  · obtain rfl := List.isEmpty_iff.1 hempty
    refine List.map_congr_left fun place _ => ?_
    rw [isFree, List.all_nil, Bool.and_true]
  · simp only [hempty, Bool.false_eq_true, if_false, table_map, zipWith_rows]
    rw [List.map_map, List.zipWith_map, List.zipWith_self]
    refine List.map_congr_left fun place _ => ?_
    rw [isFree, Function.comp_apply, List.all_map]
    simp only [Box.overlaps, Box.around, Bool.not_not]
    rfl

/-- A ring has as answer its first free place. -/
theorem freeOnRing?_eq :
    c.freeOnRing? directions e occupied radius =
      (directions.map (ringPlace c.center e.half radius)).find? (c.isFree e occupied) := by
  rw [freeOnRing?, validMask_eq, ← List.map_prod_left_eq_zip, List.find?_map, Option.map_map]
  exact Option.map_id_apply

/-- An answer of a ring is a free place in one of the directions. -/
theorem exists_of_freeOnRing? (h : c.freeOnRing? directions e occupied radius = some place) :
    c.FreePlace e occupied place ∧
      ∃ direction ∈ directions, ringPlace c.center e.half radius direction = place := by
  rw [freeOnRing?_eq] at h
  exact ⟨isFree_iff.1 (List.find?_some h), List.mem_map.1 (List.mem_of_find?_eq_some h)⟩

theorem freeOnRing?_eq_none_iff :
    c.freeOnRing? directions e occupied radius = none ↔ ∀ direction ∈ directions,
      ¬c.FreePlace e occupied (ringPlace c.center e.half radius direction) := by
  rw [freeOnRing?_eq, List.find?_eq_none, List.forall_mem_map]
  simp only [isFree_iff]

end Canvas

end KineticText
