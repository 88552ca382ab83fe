import KineticText.Proofs.Script.Plain
import KineticText.Proofs.Tag.Rejection
import KineticText.Proofs.Tag.RoundTrip

/-!
# Lines of diagnostics

A diagnostic is shown as a line.  The line of an orphan has no line break, nor
has that of a text without a free place.  The line of a malformed tag quotes
what is wrong with it as it stands in the text, and has the line breaks of that
(`lineBreaks_line_malformedTag`).  So all that is reported about a text has the
line breaks of the values that are rejected in it (`sum_lineBreaks_read`).

There are four groups: line breaks, the wording of a rejection, the lines of the
three kinds of diagnostics, and those of a text.
-/

namespace KineticText

namespace Text

/-! ## Line breaks -/

/-- The characters that end a line: line feed, vertical tab, form feed, carriage
return, three information separators, next line, and the line and paragraph
separators. -/
def isLineBreak (c : Char) : Bool :=
  let n := c.toNat
  (0xa ≤ n && n ≤ 0xd) || (0x1c ≤ n && n ≤ 0x1e) || n = 0x85 || n = 0x2028 || n = 0x2029

/-- How many characters of a text end a line. -/
def lineBreaks (s : List Char) : ℕ := s.countP isLineBreak

section LineBreaks

variable {c : Char} {s t : List Char}

@[simp] theorem lineBreaks_append : lineBreaks (s ++ t) = lineBreaks s + lineBreaks t :=
  List.countP_append

theorem lineBreaks_eq_zero_iff : lineBreaks s = 0 ↔ ∀ c ∈ s, isLineBreak c = false := by
  simp [lineBreaks]

/-- A text that is quoted between others on one line. -/
theorem lineBreaks_quoted {front back : String} (hfront : lineBreaks front.toList = 0)
    (hback : lineBreaks back.toList = 0) (s : List Char) :
    lineBreaks (front ++ String.ofList s ++ back).toList = lineBreaks s := by
  rw [String.toList_append, String.toList_append, String.toList_ofList, lineBreaks_append,
    lineBreaks_append, hfront, hback, Nat.zero_add, Nat.add_zero]

theorem isBlank_of_isLineBreak (h : isLineBreak c = true) : isBlank c = true := by
  simp only [isLineBreak, isBlank, Bool.or_eq_true, Bool.and_eq_true, decide_eq_true_eq] at h ⊢
  omega

theorem isLineBreak_of_not_blank (h : isBlank c = false) : isLineBreak c = false := by
  by_contra hbreak
  rw [isBlank_of_isLineBreak (by simpa using hbreak)] at h
  cases h

theorem isLineBreak_of_isDigit (h : c.isDigit = true) : isLineBreak c = false := by
  rcases isDigit_iff.1 h with rfl | rfl | rfl | rfl | rfl | rfl | rfl | rfl | rfl | rfl <;> rfl

/-- A number is written on one line. -/
theorem lineBreaks_toString_nat (n : ℕ) : lineBreaks (toString n).toList = 0 := by
  refine lineBreaks_eq_zero_iff.2 fun c hc => isLineBreak_of_isDigit ?_
  rw [show toString n = n.repr from rfl, Nat.toList_repr] at hc
  exact Nat.isDigit_of_mem_toDigits (by decide) (by decide) hc

theorem lineBreaks_toString_int (z : ℤ) : lineBreaks (toString z).toList = 0 := by
  cases z with
  | ofNat n => exact lineBreaks_toString_nat n
  | negSucc n =>
    have hsign : lineBreaks "-".toList = 0 := by decide +kernel
    show lineBreaks ("-" ++ toString (n + 1)).toList = 0
    rw [String.toList_append, lineBreaks_append, hsign, lineBreaks_toString_nat]

/-- Words with single spaces between them stand on one line. -/
theorem lineBreaks_unwords {ws : List (List Char)} (h : ∀ w ∈ ws, ∀ c ∈ w, isBlank c = false) :
    lineBreaks (unwords ws) = 0 := by
  refine lineBreaks_eq_zero_iff.2 fun c hc => ?_
  rcases mem_unwords hc with rfl | ⟨w, hw, hc⟩
  · rfl
  · exact isLineBreak_of_not_blank (h w hw c hc)

end LineBreaks

end Text

namespace Tag

open Text

variable {raw inner : List Char} {t : Tag} {e : TagError}

/-! ## The wording of a rejection -/

/-- A text is rejected as a text. -/
theorem ne_notText_of_read (h : Tag.read raw = .error e) (shown : List Char) :
    e ≠ .notText shown := by
  rintro rfl
  rcases read_eq_error_iff.1 h with h | ⟨p, hp, h⟩
  · rcases Parts.read_eq_error_iff.1 h with ⟨-, ⟨⟩⟩ | ⟨-, h | ⟨_, _, -, -, ⟨⟩⟩⟩
    obtain ⟨_, f, _, _, _, -, -, htake⟩ := takeFields_eq_error_iff.1 h
    cases f with
    | number f => cases takeNumber_eq_error (map_eq_error_iff.1 htake)
    | direction f => cases takeDirection_eq_error (map_eq_error_iff.1 htake)
  · obtain ⟨f, n, -, ⟨⟩⟩ := (Parts.checkRanges_eq_error_iff (Parts.read_eq_ok_iff.1 hp).1).1 h

/-- The wording has the line breaks of the text that it quotes. -/
theorem lineBreaks_message (h : ∀ shown, e ≠ .notText shown) :
    lineBreaks e.message.toList = lineBreaks e.value := by
  cases e with
  | notText shown => exact absurd rfl (h shown)
  | empty => decide +kernel
  | number f written =>
    have hfront : lineBreaks ("Invalid " ++ f.label ++ " '").toList = 0 := by
      cases f <;> decide +kernel
    have hback : lineBreaks ("'. Use a positive number (0.1 to " ++
        (toString f.limit ++ " seconds)")).toList = 0 := by
      cases f <;> decide +kernel
    show lineBreaks ("Invalid " ++ f.label ++ " '" ++ String.ofList written ++
      "'. Use a positive number (0.1 to " ++ toString f.limit ++ " seconds)").toList =
        lineBreaks written
    rw [String.append_assoc, String.append_assoc, lineBreaks_quoted hfront hback]
  | direction f written =>
    have hfront : lineBreaks ("Invalid " ++ f.label ++ " '").toList = 0 := by
      cases f <;> decide +kernel
    show lineBreaks ("Invalid " ++ f.label ++ " '" ++ String.ofList written ++
      "'. Use L, R, F, or B").toList = lineBreaks written
    rw [lineBreaks_quoted hfront (by decide +kernel)]
  | trailing rest =>
    have hback : lineBreaks ("' after exit speed. " ++ TagError.help).toList = 0 := by
      decide +kernel
    show lineBreaks ("Unexpected text '" ++ String.ofList rest ++ "' after exit speed. " ++
      TagError.help).toList = lineBreaks rest
    rw [String.append_assoc, lineBreaks_quoted (by decide +kernel) hback]

/-- A tag that is accepted is written on one line. -/
theorem lineBreaks_of_read (h : Tag.read ('<' :: (inner ++ ['>'])) = .ok t) :
    lineBreaks ('<' :: (inner ++ ['>'])) = 0 := by
  obtain ⟨p, hp, htext, -, -⟩ := read_eq_ok_iff.1 h
  rw [content_bracketed] at htext
  have hinner : ∀ c ∈ inner, isLineBreak c = false := by
    rw [htext]
    refine Parts.forall_mem_text hp (fun c => isLineBreak_of_isDigit) (by decide) fun d => ?_
    cases d <;> decide
  refine lineBreaks_eq_zero_iff.2 ?_
  simp only [List.forall_mem_cons, List.forall_mem_append]
  exact ⟨by decide, hinner, by decide, List.forall_mem_nil _⟩

end Tag

namespace Diagnostic

open Text

variable {raw inner text : List Char} {t : Tag} {e : TagError}

/-! ## The three kinds -/

theorem lineBreaks_line (d : Diagnostic) :
    lineBreaks d.line.toList = lineBreaks d.kind.toList + lineBreaks d.message.toList := by
  have hcolon : lineBreaks ": ".toList = 0 := by decide +kernel
  have hempty : lineBreaks "".toList = 0 := by decide +kernel
  have htoken : lineBreaks "token ".toList = 0 := by decide +kernel
  unfold line
  cases d.tokenIndex with
  | none =>
    simp only [String.toList_append, lineBreaks_append, hcolon, hempty, Nat.add_zero]
  | some index =>
    simp only [String.toList_append, lineBreaks_append, lineBreaks_toString_int, hcolon, htoken,
      Nat.add_zero]

theorem lineBreaks_line_malformedTag (h : Tag.read raw = .error e) (i : ℕ) :
    lineBreaks (malformedTag raw i e).line.toList = lineBreaks e.value := by
  have hkind : lineBreaks "malformed_tag".toList = 0 := by decide +kernel
  rw [lineBreaks_line, malformedTag, hkind, Tag.lineBreaks_message (Tag.ne_notText_of_read h),
    Nat.zero_add]

theorem lineBreaks_line_orphanTag (h : Tag.read ('<' :: (inner ++ ['>'])) = .ok t) (i : ℕ) :
    lineBreaks (orphanTag ('<' :: (inner ++ ['>'])) i).line.toList = 0 := by
  have hkind : lineBreaks "orphan_tag".toList = 0 := by decide +kernel
  rw [lineBreaks_line, orphanTag, hkind, lineBreaks_quoted (by decide +kernel) (by decide +kernel),
    Tag.lineBreaks_of_read h]

theorem lineBreaks_line_layoutOverflow (h : lineBreaks text = 0) (i : ℕ) :
    lineBreaks (layoutOverflow text i).line.toList = 0 := by
  have hkind : lineBreaks "layout_overflow".toList = 0 := by decide +kernel
  have hsegment : lineBreaks "No free position for segment ".toList = 0 := by decide +kernel
  have hquote : lineBreaks " '".toList = 0 := by decide +kernel
  have hfront : lineBreaks ("No free position for segment " ++ toString i ++ " '").toList = 0 := by
    simp only [String.toList_append, lineBreaks_append, lineBreaks_toString_nat, hsegment, hquote]
  rw [lineBreaks_line, layoutOverflow, hkind, lineBreaks_quoted hfront (by decide +kernel), h]

end Diagnostic

namespace Script

open Text

variable {s : List Char}

/-! ## What is reported about a text -/

/-- What is wrong with a tag that is rejected. -/
def rejectedValue? : Token → Option (List Char)
  | .word _ => none
  | .tag raw =>
    match Tag.read raw with
    | .error e => some e.value
    | .ok _ => none

/-- What is wrong with the tags of a text that are rejected, in order. -/
def rejectedValues (s : List Char) : List (List Char) := (Token.scan s).filterMap rejectedValue?

/-- The text of a segment stands on one line. -/
theorem lineBreaks_text {g : Segment} (hg : g ∈ (read s).segments) : lineBreaks g.text = 0 := by
  obtain ⟨ws, -, hws, htext⟩ := (isScript_read s).texts g hg
  rw [htext]
  exact lineBreaks_unwords fun w hw => not_blank_of_isWord (hws w hw)

/-- The line of what is reported about a tag has the line breaks of what is wrong
with it, or none if the tag is accepted. -/
theorem lineBreaks_line_of_diagnosed {i : ℕ} {d : Diagnostic}
    (h : Diagnosed (Token.scan s) i d) :
    ∃ raw, (Token.scan s)[i]? = some (.tag raw) ∧
      ((∃ e, Tag.read raw = .error e ∧ d = .malformedTag raw i e ∧
          lineBreaks d.line.toList = lineBreaks e.value) ∨
        (∃ t, Tag.read raw = .ok t) ∧ d = .orphanTag raw i ∧ lineBreaks d.line.toList = 0) := by
  cases h with
  | @malformed raw e htoken hread =>
    exact ⟨raw, htoken, .inl ⟨e, hread, rfl, Diagnostic.lineBreaks_line_malformedTag hread i⟩⟩
  | @orphan raw t htoken hread hword =>
    obtain ⟨inner, -, rfl⟩ := Token.exists_inner_of_mem_scan (List.mem_of_getElem? htoken)
    exact ⟨_, htoken, .inr ⟨⟨t, hread⟩, rfl, Diagnostic.lineBreaks_line_orphanTag hread i⟩⟩

theorem sum_lineBreaks_ofTokensFrom {rest : List Token}
    (hrest : ∀ raw, .tag raw ∈ rest → ∃ inner, '>' ∉ inner ∧ raw = '<' :: (inner ++ ['>']))
    (i count : ℕ) (group : List (List Char)) :
    ((ofTokensFrom i count group rest).diagnostics.map fun d => lineBreaks d.line.toList).sum =
      lineBreaks (rest.filterMap rejectedValue?).flatten := by
  fun_induction ofTokensFrom i count group rest with
  | case1 i count group => rfl
  | case2 i count group w rest ih =>
    have hnone : rejectedValue? (.word w) = none := rfl
    rw [ih fun raw hraw => hrest raw (by simp [hraw]), List.filterMap_cons_none hnone]
  | case3 i count group raw rest e hread script ih =>
    have hvalue : rejectedValue? (.tag raw) = some e.value := by simp only [rejectedValue?, hread]
    rw [List.map_cons, List.sum_cons, Diagnostic.lineBreaks_line_malformedTag hread,
      ih fun raw hraw => hrest raw (by simp [hraw]), List.filterMap_cons_some hvalue,
      List.flatten_cons, lineBreaks_append]
  | case4 i count group raw rest t hread hempty script ih =>
    have hnone : rejectedValue? (.tag raw) = none := by simp only [rejectedValue?, hread]
    obtain ⟨inner, -, rfl⟩ := hrest raw (by simp)
    rw [List.map_cons, List.sum_cons, Diagnostic.lineBreaks_line_orphanTag hread, Nat.zero_add,
      ih fun raw hraw => hrest raw (by simp [hraw]), List.filterMap_cons_none hnone]
  | case5 i count group raw rest t hread hempty script ih =>
    have hnone : rejectedValue? (.tag raw) = none := by simp only [rejectedValue?, hread]
    rw [ih fun raw hraw => hrest raw (by simp [hraw]), List.filterMap_cons_none hnone]

/-- All that is reported about a text has the line breaks of the values that are
rejected in it. -/
theorem sum_lineBreaks_read (s : List Char) :
    ((read s).diagnostics.map fun d => lineBreaks d.line.toList).sum =
      lineBreaks (rejectedValues s).flatten :=
  sum_lineBreaks_ofTokensFrom (fun _ => Token.exists_inner_of_mem_scan) 0 0 []

end Script

end KineticText
