import KineticText.Proofs.Tag.Bracket
import KineticText.Proofs.Text.Words
import KineticText.Script.Token

/-!
# Scanning tokens

`Token.scan` takes the tokens off the front of a text.  The lemmas of this
module say what it does with blank characters, with words and with a bracketed
text at the front, and which words it finds.  `scan_induction` takes a text
apart in the same way, for statements about all texts.
-/

namespace KineticText

/-- A word is not empty and has neither blank characters nor brackets. -/
structure IsWord (w : List Char) : Prop where
  ne_nil : w ≠ []
  isWordChar : ∀ c ∈ w, Token.isWordChar c = true

namespace Token

theorem isWordChar_iff {c : Char} :
    isWordChar c = true ↔ Text.isBlank c = false ∧ c ≠ '<' ∧ c ≠ '>' := by
  simp [isWordChar, and_assoc]

theorem open_not_mem_of_isWord {w : List Char} (hw : IsWord w) : '<' ∉ w :=
  fun hmem => (isWordChar_iff.1 (hw.isWordChar _ hmem)).2.1 rfl

/-- A word found by the scan. -/
def word? : Token → Option (List Char)
  | word w => some w
  | tag _ => none

/-- A tag found by the scan, as written. -/
def tag? : Token → Option (List Char)
  | word _ => none
  | tag raw => some raw

theorem words_unwords {ws : List (List Char)} (h : ∀ w ∈ ws, IsWord w) :
    Text.words (Text.unwords ws) = ws :=
  Text.words_unwords fun w hw =>
    ⟨(h w hw).ne_nil, fun c hc => (isWordChar_iff.1 ((h w hw).isWordChar c hc)).1⟩

/-! ## One step of the scan -/

@[simp] theorem scan_nil : scan [] = [] := by
  rw [scan.eq_def]

/-- A word reaches to the first character that is none of its own. -/
theorem scan_cons_of_isWordChar {c : Char} (hc : isWordChar c = true) (rest : List Char) :
    scan (c :: rest) =
      word (c :: rest.takeWhile isWordChar) :: scan (rest.dropWhile isWordChar) := by
  rw [scan.eq_def]
  simp only [hc, if_true]

theorem scan_cons_of_close {rest inner tail : List Char}
    (h : Tag.untilClose? rest = some (inner, tail)) :
    scan ('<' :: rest) = tag ('<' :: (inner ++ ['>'])) :: scan tail := by
  have hword : isWordChar '<' = false := by simp [isWordChar]
  rw [scan.eq_def]
  simp only [hword, Bool.false_eq_true, if_false, if_true]
  split
  · rename_i heq
    rw [h, Option.some.injEq, Prod.mk.injEq] at heq
    obtain ⟨rfl, rfl⟩ := heq
    rfl
  · rename_i heq
    rw [h] at heq
    cases heq

/-- Any other character is dropped. -/
theorem scan_cons_of_skip {c : Char} {rest : List Char} (hc : isWordChar c = false)
    (h : c = '<' → Tag.untilClose? rest = none) : scan (c :: rest) = scan rest := by
  rw [scan.eq_def]
  simp only [hc, Bool.false_eq_true, if_false]
  split_ifs with hopen
  · split
    · rename_i heq
      rw [h hopen] at heq
      cases heq
    · rfl
  · rfl

/-! ## What stands at the front -/

/-- Blank characters at the front are no tokens. -/
theorem scan_append_of_blank {s : List Char} (hs : ∀ c ∈ s, Text.isBlank c = true)
    (rest : List Char) : scan (s ++ rest) = scan rest := by
  induction s with
  | nil => rfl
  | cons c s ih =>
    have hc : Text.isBlank c = true := hs c (by simp)
    have hskip : scan (c :: (s ++ rest)) = scan (s ++ rest) := by
      refine scan_cons_of_skip (by simp [isWordChar, hc]) ?_
      rintro rfl
      exact absurd hc (by simp [Text.isBlank])
    rw [List.cons_append, hskip, ih fun d hd => hs d (by simp [hd])]

theorem scan_append_of_word {w rest : List Char} (hw : IsWord w)
    (hrest : ∀ c ∈ rest.head?, isWordChar c = false) :
    scan (w ++ rest) = word w :: scan rest := by
  obtain ⟨hne, hchars⟩ := hw
  cases w with
  | nil => exact absurd rfl hne
  | cons c w =>
    have hw : ∀ d ∈ w, isWordChar d = true := fun d hd => hchars d (by simp [hd])
    rw [List.cons_append, scan_cons_of_isWordChar (hchars c (by simp)), takeWhile_run hw hrest,
      dropWhile_run hw hrest]

theorem scan_append_of_bracketed {inner : List Char} (h : '>' ∉ inner) (rest : List Char) :
    scan ('<' :: (inner ++ ['>']) ++ rest) = tag ('<' :: (inner ++ ['>'])) :: scan rest := by
  rw [List.cons_append, List.append_assoc, List.singleton_append,
    scan_cons_of_close (Tag.untilClose?_append h)]

theorem scan_unwords_append {ws : List (List Char)} (hws : ∀ w ∈ ws, IsWord w) {rest : List Char}
    (hrest : ∀ c ∈ rest.head?, isWordChar c = false) :
    scan (Text.unwords ws ++ rest) = ws.map word ++ scan rest := by
  induction ws with
  | nil => rfl
  | cons w ws ih =>
    have hw : IsWord w := hws w (by simp)
    have htail := ih fun v hv => hws v (by simp [hv])
    cases ws with
    | nil => simpa [Text.unwords] using scan_append_of_word hw hrest
    | cons v ws =>
      have hspace : ∀ c ∈ [' '], Text.isBlank c = true := by simp [Text.isBlank]
      have hblank := scan_append_of_blank hspace (Text.unwords (v :: ws) ++ rest)
      rw [Text.unwords_cons_cons, List.append_assoc, List.cons_append,
        scan_append_of_word hw (by simp [isWordChar, hspace])]
      rw [List.singleton_append] at hblank
      rw [hblank, htail]
      rfl

/-! ## From the front -/

/-- A text is empty, or there stands a word at its front, or a bracketed text,
or one character that belongs to no token. -/
@[elab_as_elim]
theorem scan_induction {motive : List Char → Prop} (nil : motive [])
    (word : ∀ w rest, IsWord w → (∀ c ∈ rest.head?, isWordChar c = false) → motive rest →
      motive (w ++ rest))
    (bracketed : ∀ inner rest, '>' ∉ inner → motive rest →
      motive ('<' :: (inner ++ ['>']) ++ rest))
    (skip : ∀ c rest, isWordChar c = false → (c = '<' → '>' ∉ rest) → motive rest →
      motive (c :: rest))
    (s : List Char) : motive s := by
  induction s using scan.induct with
  | case1 => exact nil
  | case2 c rest hc ih =>
    have hw : IsWord (c :: rest.takeWhile isWordChar) := by
      refine ⟨by simp, fun d hd => ?_⟩
      rcases List.mem_cons.1 hd with rfl | hd
      · exact hc
      · exact List.mem_takeWhile_imp hd
    have hrest : ∀ d ∈ (rest.dropWhile isWordChar).head?, isWordChar d = false := by
      intro d hd
      have hhead := List.head?_dropWhile_not isWordChar rest
      rw [Option.mem_def.1 hd] at hhead
      simpa using hhead
    have hmotive := word _ _ hw hrest ih
    rwa [List.cons_append, List.takeWhile_append_dropWhile] at hmotive
  | case3 rest inner tail hclose hword ih =>
    obtain ⟨hinner, rfl⟩ := Tag.untilClose?_eq_some_iff.1 hclose
    have hmotive := bracketed inner tail hinner ih
    rwa [List.cons_append, List.append_assoc, List.singleton_append] at hmotive
  | case4 rest hnone hword ih =>
    exact skip _ _ (by simpa using hword) (fun _ => Tag.untilClose?_eq_none_iff.1 hnone) ih
  | case5 c rest hword hopen ih => exact skip _ _ (by simpa using hword) (absurd · hopen) ih

/-! ## What is found -/

theorem isWord_of_mem_scan {s w : List Char} (h : word w ∈ scan s) : IsWord w := by
  fun_induction scan s with
  | case1 => simp at h
  | case2 c rest hc ih =>
    rcases List.mem_cons.1 h with heq | htail
    · cases heq
      refine ⟨by simp, fun d hd => ?_⟩
      rcases List.mem_cons.1 hd with rfl | hd
      · exact hc
      · exact List.mem_takeWhile_imp hd
    · exact ih htail
  | case3 _ _ _ _ _ ih => exact ih (by simpa using h)
  | case4 _ _ _ ih => exact ih h
  | case5 _ _ _ _ ih => exact ih h

/-- A tag is a bracketed text. -/
theorem exists_inner_of_mem_scan {s raw : List Char} (h : tag raw ∈ scan s) :
    ∃ inner, '>' ∉ inner ∧ raw = '<' :: (inner ++ ['>']) := by
  induction s using scan_induction with
  | nil => simp at h
  | word w rest hw hrest ih =>
    rw [scan_append_of_word hw hrest] at h
    exact ih (by simpa using h)
  | bracketed inner rest hinner ih =>
    rw [scan_append_of_bracketed hinner] at h
    rcases List.mem_cons.1 h with heq | htail
    · exact ⟨inner, hinner, by simpa using heq⟩
    · exact ih htail
  | skip c rest hc hopen ih =>
    rw [scan_cons_of_skip hc fun h => Tag.untilClose?_eq_none_iff.2 (hopen h)] at h
    exact ih h

theorem text_ne_nil_of_mem_scan {s : List Char} {t : Token} (h : t ∈ scan s) : t.text ≠ [] := by
  cases t with
  | word w => exact (isWord_of_mem_scan h).ne_nil
  | tag raw =>
    obtain ⟨inner, -, rfl⟩ := exists_inner_of_mem_scan h
    exact List.cons_ne_nil '<' (inner ++ ['>'])

end Token

end KineticText
