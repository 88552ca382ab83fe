/-!
# Bracketed text

A bracketed text runs from a `<` to the next `>` after it, over anything but
`>`.  A `<` with no `>` after it starts none.

In the program `isBracketed` is `is_tag_token`, and `spans` is `find_tag_spans`.
-/

namespace KineticText.Tag

/-- The text in front of the first `>`, and the text behind it. -/
def untilClose? : List Char → Option (List Char × List Char)
  | [] => none
  | c :: rest =>
    if c = '>' then some ([], rest)
    else (untilClose? rest).map fun (inner, tail) => (c :: inner, tail)

theorem length_lt_of_untilClose? {s inner tail : List Char}
    (h : untilClose? s = some (inner, tail)) : tail.length < s.length := by
  induction s generalizing inner with
  | nil => simp [untilClose?] at h
  | cons c rest ih =>
    by_cases hc : c = '>'
    · simp [untilClose?, hc] at h
      simp [h.2]
    · simp only [untilClose?, hc, if_false, Option.map_eq_some_iff, Prod.mk.injEq] at h
      obtain ⟨⟨inner', tail'⟩, hrest, -, htail⟩ := h
      simp only at htail
      subst htail
      have := ih hrest
      simp only [List.length_cons]
      omega

/-- Whether a text is one bracketed text from end to end. -/
def isBracketed : List Char → Bool
  | '<' :: rest => (untilClose? rest).any fun (_, tail) => tail.isEmpty
  | _ => false

/-- A bracketed text and where it stands, counted in characters. -/
structure Span where
  start : Nat
  stop : Nat
  raw : List Char
deriving DecidableEq, Repr

/-- The bracketed texts of a text that stands at an offset. -/
def spansFrom (offset : Nat) (s : List Char) : List Span :=
  match s with
  | [] => []
  | c :: rest =>
    if c = '<' then
      match h : untilClose? rest with
      | some (inner, tail) =>
        let stop := offset + inner.length + 2
        ⟨offset, stop, '<' :: inner ++ ['>']⟩ :: spansFrom stop tail
      | none => spansFrom (offset + 1) rest
    else spansFrom (offset + 1) rest
termination_by s.length
decreasing_by
  · have := length_lt_of_untilClose? h
    simp only [List.length_cons]
    omega
  · simp
  · simp

def spans (s : List Char) : List Span := spansFrom 0 s

end KineticText.Tag
