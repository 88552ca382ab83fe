import KineticText.Tag.Bracket
import Mathlib.Data.List.Basic

/-!
# Bracketed texts

`untilClose?` looks for the first `>`; `untilClose?_eq_some_iff` and
`untilClose?_eq_none_iff` say so without the search.
-/

namespace KineticText.Tag

theorem untilClose?_append {inner tail : List Char} (h : '>' ∉ inner) :
    untilClose? (inner ++ '>' :: tail) = some (inner, tail) := by
  induction inner with
  | nil => simp [untilClose?]
  | cons c inner ih =>
    rw [List.mem_cons, not_or] at h
    simp [untilClose?, Ne.symm h.1, ih h.2]

/-- A close bracket that is found is the first one. -/
theorem untilClose?_eq_some_iff {s inner tail : List Char} :
    untilClose? s = some (inner, tail) ↔ '>' ∉ inner ∧ s = inner ++ '>' :: tail := by
  constructor
  · intro h
    induction s generalizing inner with
    | nil => simp [untilClose?] at h
    | cons c s ih =>
      by_cases hc : c = '>'
      · simp only [untilClose?, hc, if_true, Option.some.injEq, Prod.mk.injEq] at h
        obtain ⟨rfl, rfl⟩ := h
        simp [hc]
      · simp only [untilClose?, hc, if_false, Option.map_eq_some_iff, Prod.exists,
          Prod.mk.injEq] at h
        obtain ⟨inner', tail', hs, rfl, rfl⟩ := h
        obtain ⟨hinner, rfl⟩ := ih hs
        exact ⟨by simp [hinner, Ne.symm hc], rfl⟩
  · intro hsplit
    obtain ⟨hinner, rfl⟩ := hsplit
    exact untilClose?_append hinner

theorem untilClose?_eq_none_iff {s : List Char} : untilClose? s = none ↔ '>' ∉ s := by
  constructor
  · intro h hmem
    obtain ⟨inner, tail, hsplit, hinner⟩ := List.eq_append_cons_of_mem hmem
    rw [hsplit, untilClose?_append hinner] at h
    cases h
  · intro h
    by_contra hne
    obtain ⟨⟨inner, tail⟩, hsome⟩ := Option.ne_none_iff_exists'.1 hne
    obtain ⟨-, rfl⟩ := untilClose?_eq_some_iff.1 hsome
    exact h (by simp)

/-- A bracketed text has its only `>` at its end. -/
theorem isBracketed_of_not_mem {inner : List Char} (h : '>' ∉ inner) :
    isBracketed ('<' :: (inner ++ ['>'])) = true := by
  simp [isBracketed, untilClose?_append h]

end KineticText.Tag
