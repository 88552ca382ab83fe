import KineticText.Proofs.Script.Place
import KineticText.Proofs.Script.Rendering

/-!
# What a reader sees and what is read

`displayText` removes the tags and the brackets of a text and sets single
spaces, and does not look at its tokens.  It shows the words of the text
without a change, but two of them as one word where only tags and brackets
stand between them (`words_bare_iff`).  So it is the texts of the segments with
single spaces between them exactly where every two words have a blank character
between them that is in no tag (`displayText_agrees`).

There are three groups: the text without tags and brackets, its words, and the
texts of the segments.
-/

namespace KineticText

namespace Script

/-! ## The text without tags and brackets -/

/-- The text without bracketed texts and without the other brackets. -/
def bare (s : List Char) : List Char := (withoutTags s).filter fun c => c ≠ '<' && c ≠ '>'

section Bare

variable {c : Char} {w inner rest : List Char}

theorem withoutTags_cons_of_skip (h : c = '<' → '>' ∉ rest) :
    withoutTags (c :: rest) = c :: withoutTags rest := by
  rw [withoutTags.eq_def]
  simp only
  split_ifs with hopen
  · split
    · rename_i heq
      rw [Tag.untilClose?_eq_none_iff.2 (h hopen)] at heq
      cases heq
    · rfl
  · rfl

@[simp] theorem bare_nil : bare [] = [] := by
  rw [bare, withoutTags.eq_def]
  rfl

theorem bare_append_of_word (hw : IsWord w) : bare (w ++ rest) = w ++ bare rest := by
  obtain ⟨-, hchars⟩ := hw
  induction w with
  | nil => rfl
  | cons c w ih =>
    obtain ⟨-, hopen, hclose⟩ := Token.isWordChar_iff.1 (hchars c (by simp))
    have htail := ih fun d hd => hchars d (by simp [hd])
    rw [bare] at htail ⊢
    rw [List.cons_append, withoutTags_cons_of_skip (absurd · hopen),
      List.filter_cons_of_pos (by simp [hopen, hclose]), htail, List.cons_append]

theorem bare_bracketed (h : '>' ∉ inner) :
    bare ('<' :: (inner ++ ['>']) ++ rest) = bare rest := by
  have hclose : Tag.untilClose? (inner ++ ['>'] ++ rest) = some (inner, rest) := by
    rw [List.append_assoc, List.singleton_append, Tag.untilClose?_append h]
  rw [bare, List.cons_append, withoutTags.eq_def]
  simp only [if_true]
  split
  · rename_i heq
    rw [hclose, Option.some.injEq, Prod.mk.injEq] at heq
    obtain ⟨-, rfl⟩ := heq
    rfl
  · rename_i heq
    rw [hclose] at heq
    cases heq

theorem bare_cons_of_blank (hc : Text.isBlank c = true) : bare (c :: rest) = c :: bare rest := by
  have hopen : c ≠ '<' := by
    rintro rfl
    exact absurd hc (by decide)
  have hclose : c ≠ '>' := by
    rintro rfl
    exact absurd hc (by decide)
  rw [bare, withoutTags_cons_of_skip (absurd · hopen),
    List.filter_cons_of_pos (by simp [hopen, hclose]), bare]

/-- A stray bracket is left out. -/
theorem bare_cons_of_bracket (hword : Token.isWordChar c = false)
    (hc : Text.isBlank c = false) (h : c = '<' → '>' ∉ rest) : bare (c :: rest) = bare rest := by
  have hbracket : ¬(c ≠ '<' ∧ c ≠ '>') := fun hne => by
    rw [Token.isWordChar_iff.2 ⟨hc, hne⟩] at hword
    cases hword
  rw [bare, withoutTags_cons_of_skip h, List.filter_cons_of_neg (by simpa using hbracket), bare]

end Bare

/-! ## Its words -/

theorem not_blank_of_isWord {w : List Char} (hw : IsWord w) : ∀ c ∈ w, Text.isBlank c = false :=
  fun c hc => (Token.isWordChar_iff.1 (hw.isWordChar c hc)).1

/-- Without its blank characters the bare text is the words of the text. -/
theorem filter_bare (s : List Char) :
    (bare s).filter (fun c => !Text.isBlank c) =
      ((Token.scan s).filterMap Token.word?).flatten := by
  induction s using Token.scan_induction with
  | nil => simp
  | word w rest hw hrest ih =>
    have hwChars : w.filter (fun c => !Text.isBlank c) = w :=
      List.filter_eq_self.2 fun c hc => by simp [not_blank_of_isWord hw c hc]
    rw [bare_append_of_word hw, Token.scan_append_of_word hw hrest, List.filter_append, hwChars, ih]
    rfl
  | bracketed inner rest hinner ih =>
    rw [bare_bracketed hinner, Token.scan_append_of_bracketed hinner, ih]
    rfl
  | skip c rest hc hopen ih =>
    rw [Token.scan_cons_of_skip hc fun h => Tag.untilClose?_eq_none_iff.2 (hopen h), ← ih]
    cases hblank : Text.isBlank c with
    | true => rw [bare_cons_of_blank hblank, List.filter_cons_of_neg (by simp [hblank])]
    | false => rw [bare_cons_of_bracket hc hblank hopen]

theorem exists_openBlank_lt_add {s rest : List Char} {n : ℕ}
    (h : ∀ k, OpenBlank s k ↔ n ≤ k ∧ OpenBlank rest (k - n)) (j : ℕ) :
    (∃ k < n + j, OpenBlank s k) ↔ ∃ k < j, OpenBlank rest k := by
  constructor
  · intro hblank
    obtain ⟨k, hk, hopen⟩ := hblank
    obtain ⟨hn, hrest⟩ := (h k).1 hopen
    exact ⟨k - n, by omega, hrest⟩
  · intro hblank
    obtain ⟨k, hk, hopen⟩ := hblank
    refine ⟨n + k, by omega, (h _).2 ⟨by omega, ?_⟩⟩
    rwa [Nat.add_sub_cancel_left]

/-- In front of the first word, the bare text begins with a blank character
where there is an open one. -/
theorem isBlank_head_bare_iff {s : List Char} {p : ℕ × List Char} (h : p ∈ (wordsAt s).head?) :
    (∀ c ∈ (bare s).head?, Text.isBlank c = true) ↔ ∃ k < p.1, OpenBlank s k := by
  induction s using Token.scan_induction generalizing p with
  | nil => simp at h
  | word w rest hw hrest ih =>
    rw [wordsAt_append_of_word hw hrest] at h
    obtain rfl : (0, w) = p := by simpa using h
    obtain ⟨c, w, rfl⟩ := List.exists_cons_of_ne_nil hw.ne_nil
    have hc : Text.isBlank c = false := not_blank_of_isWord hw c (by simp)
    rw [bare_append_of_word hw]
    simp [hc]
  | bracketed inner rest hinner ih =>
    rw [wordsAt_bracketed hinner, List.head?_map] at h
    obtain ⟨q, hq, rfl⟩ := Option.map_eq_some_iff.1 h
    rw [bare_bracketed hinner, ih hq, wordFurther,
      exists_openBlank_lt_add fun k => openBlank_bracketed hinner]
  | skip c rest hc hopen ih =>
    rw [wordsAt_cons_of_skip hc hopen, List.head?_map] at h
    obtain ⟨q, hq, rfl⟩ := Option.map_eq_some_iff.1 h
    cases hblank : Text.isBlank c with
    | true =>
      rw [bare_cons_of_blank hblank]
      refine iff_of_true (by simp [hblank]) ⟨0, ?_, ?_⟩
      · show 0 < 1 + q.1
        omega
      · exact (openBlank_cons_of_skip hopen).2 (.inl ⟨rfl, hblank⟩)
    | false =>
      have hfurther (k : ℕ) : OpenBlank (c :: rest) k ↔ 1 ≤ k ∧ OpenBlank rest (k - 1) := by
        simp [openBlank_cons_of_skip hopen, hblank]
      rw [bare_cons_of_bracket hc hblank hopen, ih hq, wordFurther,
        exists_openBlank_lt_add hfurther]

theorem wordsAt_ne_nil_of_bare {s : List Char} {c : Char} (hc : c ∈ (bare s).head?)
    (hblank : Text.isBlank c = false) : wordsAt s ≠ [] := by
  intro hnil
  have hmem : c ∈ (bare s).filter fun d => !Text.isBlank d :=
    List.mem_filter.2 ⟨List.mem_of_mem_head? hc, by simp [hblank]⟩
  rw [filter_bare, ← map_snd_wordsAt, hnil] at hmem
  simp at hmem

/-- Between the word at the front and a later one there is an open blank
character where the rest has one in front of it. -/
theorem blankBetween_front_iff {w rest : List Char} (hw : IsWord w) (q : ℕ × List Char) :
    BlankBetween (w ++ rest) (0, w) (wordFurther w.length q) ↔ ∃ k < q.1, OpenBlank rest k := by
  have hskip (k : ℕ) :
      OpenBlank (w ++ rest) k ↔ w.length ≤ k ∧ OpenBlank rest (k - w.length) :=
    openBlank_append_of_word hw
  rw [← exists_openBlank_lt_add hskip]
  simp only [BlankBetween, wordFurther, Nat.zero_add]
  refine exists_congr fun k => ⟨fun h => h.2, fun h => ⟨?_, h⟩⟩
  exact ((openBlank_append_of_word hw).1 h.2).1

/-- The word at the front stays a word of the bare text where the next one is
set off from it. -/
theorem words_append_bare_iff {w rest : List Char} (hw : IsWord w) (ws : List (List Char)) :
    Text.words (w ++ bare rest) = w :: ws ↔
      (∀ q ∈ (wordsAt rest).head?, ∃ k < q.1, OpenBlank rest k) ∧
        Text.words (bare rest) = ws := by
  have hwChars := not_blank_of_isWord hw
  by_cases hhead : ∀ c ∈ (bare rest).head?, Text.isBlank c = true
  · rw [Text.words_run hw.ne_nil hwChars hhead, List.cons_inj_right]
    exact (and_iff_right fun q hq => (isBlank_head_bare_iff hq).1 hhead).symm
  · -- The next character belongs to the next word, which is glued to this one.
    have hnext : ∃ d ∈ (bare rest).head?, Text.isBlank d = false := by simpa using hhead
    obtain ⟨d, hd, hblank⟩ := hnext
    obtain ⟨v, vs, -, hv, hglued⟩ := Text.words_glued hwChars hd hblank
    obtain ⟨q, ps, hq⟩ := List.exists_cons_of_ne_nil (wordsAt_ne_nil_of_bare hd hblank)
    have hfirst : q ∈ (wordsAt rest).head? := by simp [hq]
    rw [hglued]
    refine iff_of_false (fun heq => hv ?_) fun hopen => hhead ?_
    · simpa using (List.cons.inj heq).1
    · exact (isBlank_head_bare_iff hfirst).2 (hopen.1 q hfirst)

/-- The words of the bare text are the words of the text where every two of
them have an open blank character between them. -/
theorem words_bare_iff (s : List Char) :
    Text.words (bare s) = (Token.scan s).filterMap Token.word? ↔
      (wordsAt s).IsChain (BlankBetween s) := by
  induction s using Token.scan_induction with
  | nil => simp [Text.words]
  | word w rest hw hrest ih =>
    have hfurther (k : ℕ) : OpenBlank (w ++ rest) (w.length + k) ↔ OpenBlank rest k := by
      simp [openBlank_append_of_word hw]
    rw [bare_append_of_word hw, Token.scan_append_of_word hw hrest,
      List.filterMap_cons_some (by rfl), words_append_bare_iff hw,
      wordsAt_append_of_word hw hrest, List.isChain_cons, isChain_further hfurther, ← ih]
    refine and_congr_left fun _ => ?_
    simp only [List.head?_map, Option.mem_map, forall_exists_index, and_imp,
      forall_apply_eq_imp_iff₂, blankBetween_front_iff hw]
  | bracketed inner rest hinner ih =>
    have hfurther (k : ℕ) : OpenBlank ('<' :: (inner ++ ['>']) ++ rest)
        (('<' :: (inner ++ ['>'])).length + k) ↔ OpenBlank rest k := by
      rw [openBlank_bracketed hinner, Nat.add_sub_cancel_left]
      exact and_iff_right (Nat.le_add_right _ _)
    rw [bare_bracketed hinner, Token.scan_append_of_bracketed hinner, wordsAt_bracketed hinner,
      isChain_further hfurther, List.filterMap_cons_none (by rfl), ih]
  | skip c rest hc hopen ih =>
    have hfurther (k : ℕ) : OpenBlank (c :: rest) (1 + k) ↔ OpenBlank rest k := by
      simp [openBlank_cons_of_skip hopen]
    rw [Token.scan_cons_of_skip hc fun h => Tag.untilClose?_eq_none_iff.2 (hopen h),
      wordsAt_cons_of_skip hc hopen, isChain_further hfurther, ← ih]
    cases hblank : Text.isBlank c with
    | true => rw [bare_cons_of_blank hblank, Text.words_cons_blank hblank]
    | false => rw [bare_cons_of_bracket hc hblank hopen]

/-! ## The texts of the segments -/

theorem words_read (s : List Char) :
    (read s).segments.flatMap (fun g => Text.words g.text) =
      (Token.scan s).filterMap Token.word? :=
  words_ofTokensFrom (by simp) fun _ => Token.isWord_of_mem_scan

theorem unwords_texts_read (s : List Char) :
    Text.unwords ((read s).segments.map Segment.text) =
      Text.unwords ((Token.scan s).filterMap Token.word?) := by
  have htexts : (read s).segments.map Segment.text =
      ((read s).segments.map fun g => Text.words g.text).map Text.unwords := by
    rw [List.map_map]
    refine List.map_congr_left fun g hg => ?_
    obtain ⟨ws, -, hws, htext⟩ := (isScript_read s).texts g hg
    rw [Function.comp_apply, htext, Token.words_unwords hws]
  have hwords : ∀ ws ∈ (read s).segments.map fun g => Text.words g.text, ws ≠ [] := by
    intro ws hmem
    obtain ⟨g, hg, rfl⟩ := List.mem_map.1 hmem
    obtain ⟨ws, hne, hws, htext⟩ := (isScript_read s).texts g hg
    rwa [htext, Token.words_unwords hws]
  rw [htexts, Text.unwords_map_unwords hwords, ← List.flatMap_def, words_read]

/-- What a reader sees has the words of the tokens, which are those of the
segments, and nothing else but spaces.  It is the texts of the segments with
single spaces between them exactly where every two words have a blank character
outside of tags between them. -/
theorem displayText_agrees (s : List Char) :
    (displayText s).filter (fun c => !Text.isBlank c) =
        ((Token.scan s).filterMap Token.word?).flatten ∧
      ((Token.scan s).filterMap Token.word?).flatten =
        ((read s).segments.flatMap fun g => Text.words g.text).flatten ∧
      (displayText s = Text.unwords ((read s).segments.map Segment.text) ↔
        (wordsAt s).IsChain (BlankBetween s)) := by
  have hwords : ∀ w ∈ (Token.scan s).filterMap Token.word?, IsWord w := by
    intro w hw
    obtain ⟨t, ht, hword⟩ := List.mem_filterMap.1 hw
    cases t with
    | word v =>
      obtain rfl : v = w := by simpa [Token.word?] using hword
      exact Token.isWord_of_mem_scan ht
    | tag raw => cases hword
  refine ⟨?_, by rw [words_read], ?_⟩
  · rw [displayText, Text.collapse,
      Text.filter_unwords fun w hw => (Text.ne_nil_and_not_blank_of_mem_words hw).2,
      Text.flatten_words, ← bare, filter_bare]
  · rw [unwords_texts_read, displayText, Text.collapse, ← bare,
      Text.unwords_inj (fun w => Text.ne_nil_and_not_blank_of_mem_words)
        fun w hw => ⟨(hwords w hw).ne_nil, not_blank_of_isWord (hwords w hw)⟩, words_bare_iff]

end Script

end KineticText
