import KineticText.Proofs.Script.Display
import KineticText.Proofs.Text.Spacing

/-!
# Plain texts

A text is plain if it has no brackets and is spaced singly.  What a reader sees
of a script is plain, and plain texts are the ones that a reader sees without a
change (`displayText_eq_self_iff`).  A plain text is one segment without a tag,
or none if it is empty (`read_of_isPlain`).
-/

namespace KineticText

namespace Script

/-- No brackets, and no blank characters but single spaces between others. -/
structure IsPlain (s : List Char) : Prop extends Text.IsSpaced s where
  no_open : '<' ∉ s
  no_close : '>' ∉ s

/-! ## What a reader sees -/

theorem no_bracket_bare (s : List Char) : '<' ∉ bare s ∧ '>' ∉ bare s := by
  constructor <;> simp [bare]

/-- A text without brackets is all bare. -/
theorem bare_eq_self {s : List Char} (hopen : '<' ∉ s) (hclose : '>' ∉ s) : bare s = s := by
  induction s with
  | nil => exact bare_nil
  | cons c s ih =>
    rw [List.mem_cons, not_or] at hopen hclose
    have htail := ih hopen.2 hclose.2
    rw [bare] at htail ⊢
    rw [withoutTags_cons_of_skip (absurd · (Ne.symm hopen.1)),
      List.filter_cons_of_pos (by simp [Ne.symm hopen.1, Ne.symm hclose.1]), htail]

theorem isPlain_displayText (s : List Char) : IsPlain (displayText s) where
  toIsSpaced := Text.isSpaced_collapse (bare s)
  no_open h := (Text.mem_collapse h).elim (by decide) (no_bracket_bare s).1
  no_close h := (Text.mem_collapse h).elim (by decide) (no_bracket_bare s).2

theorem displayText_of_isPlain {s : List Char} (h : IsPlain s) : displayText s = s := by
  rw [displayText, ← bare, bare_eq_self h.no_open h.no_close]
  exact Text.unwords_words h.toIsSpaced

theorem displayText_eq_self_iff {s : List Char} : displayText s = s ↔ IsPlain s :=
  ⟨fun h => h ▸ isPlain_displayText s, displayText_of_isPlain⟩

/-! ## What is read -/

section Read

variable {s : List Char}

theorem isWord_of_mem_words (h : IsPlain s) : ∀ w ∈ Text.words s, IsWord w := by
  intro w hw
  obtain ⟨hne, hblank⟩ := Text.ne_nil_and_not_blank_of_mem_words hw
  refine ⟨hne, fun c hc => Token.isWordChar_iff.2 ⟨hblank c hc, ?_, ?_⟩⟩
  · rintro rfl
    exact h.no_open (Text.mem_of_mem_words hw hc)
  · rintro rfl
    exact h.no_close (Text.mem_of_mem_words hw hc)

theorem scan_of_isPlain (h : IsPlain s) : Token.scan s = (Text.words s).map .word := by
  have hscan : Token.scan (Text.unwords (Text.words s) ++ []) =
      (Text.words s).map .word ++ Token.scan [] :=
    Token.scan_unwords_append (isWord_of_mem_words h) (by simp)
  rwa [Text.unwords_words h.toIsSpaced, List.append_nil, Token.scan_nil, List.append_nil] at hscan

/-- The words of a plain text make one segment, which has the text as it is. -/
theorem read_of_isPlain (h : IsPlain s) :
    read s = ⟨if s = [] then [] else [{ text := s, index := 0 }], []⟩ := by
  have htext := Text.unwords_words h.toIsSpaced
  have hempty : (Text.words s).isEmpty = true ↔ s = [] := by
    rw [List.isEmpty_iff]
    constructor
    · intro hwords
      rw [← htext, hwords]
      rfl
    · rintro rfl
      rfl
  have htokens := ofTokensFrom_words (Text.words s) 0 0 [] []
  rw [List.append_nil, List.nil_append] at htokens
  rw [read, ofTokens, scan_of_isPlain h, htokens, ofTokensFrom, segmentOf, htext]
  simp only [hempty]

end Read

/-- What a reader sees is plain, is seen without a change, and is read as one
segment without a tag, or as none if there is nothing to see. -/
theorem displayText_fixed (s : List Char) :
    IsPlain (displayText s) ∧ displayText (displayText s) = displayText s ∧
      read (displayText s) =
        ⟨if displayText s = [] then [] else [{ text := displayText s, index := 0 }], []⟩ :=
  ⟨isPlain_displayText s, displayText_of_isPlain (isPlain_displayText s),
    read_of_isPlain (isPlain_displayText s)⟩

end Script

end KineticText
