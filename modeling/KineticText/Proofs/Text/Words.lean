import KineticText.Text.Blank
import Mathlib.Data.List.Basic
import Mathlib.Data.List.TakeWhile
import Mathlib.Tactic.SplitIfs

/-!
# Runs, words and single spaces

A text is scanned by its maximal runs of characters of one class.
`takeWhile_run` and `dropWhile_run` say where a run ends, and `words_run` is
the same for `Text.words`, which inverts `Text.unwords` on words without blank
characters (`words_unwords`).  `flatten_words` says that words are all that is
left without the blank characters, and `words_glued` that two runs with nothing
between them are one word.
-/

namespace KineticText

/-! ## Runs -/

section Runs

variable {p : Char → Bool} {run rest : List Char}

/-- A run ends where the first other character stands. -/
theorem takeWhile_run (hrun : ∀ c ∈ run, p c = true) (hrest : ∀ c ∈ rest.head?, p c = false) :
    (run ++ rest).takeWhile p = run := by
  rw [List.takeWhile_append_of_pos hrun]
  cases rest with
  | nil => simp
  | cons c rest => simp [hrest c rfl]

theorem dropWhile_run (hrun : ∀ c ∈ run, p c = true) (hrest : ∀ c ∈ rest.head?, p c = false) :
    (run ++ rest).dropWhile p = rest := by
  rw [List.dropWhile_append_of_pos hrun]
  cases rest with
  | nil => rfl
  | cons c rest => simp [hrest c rfl]

end Runs

/-! ## Words -/

namespace Text

theorem words_cons_blank {b : Char} (hb : isBlank b = true) (rest : List Char) :
    words (b :: rest) = words rest := by
  cases rest <;> simp [words, hb]

/-- A run in front of a blank character, or of nothing, is the first word. -/
theorem words_run {w rest : List Char} (hw : w ≠ []) (hwChars : ∀ c ∈ w, isBlank c = false)
    (hrest : ∀ c ∈ rest.head?, isBlank c = true) : words (w ++ rest) = w :: words rest := by
  induction w with
  | nil => exact absurd rfl hw
  | cons c w ih =>
    have hc : isBlank c = false := hwChars c (by simp)
    cases w with
    | nil =>
      cases rest with
      | nil => simp [words, hc]
      | cons b rest => simp [words, hc, hrest b rfl]
    | cons d w =>
      have hd : isBlank d = false := hwChars d (by simp)
      have htail := ih (by simp) fun a ha => hwChars a (by simp [ha])
      simp only [List.cons_append] at htail ⊢
      simp only [words, hc, hd, Bool.false_eq_true, if_false] at htail ⊢
      rw [htail, extendFirst]

theorem unwords_cons_cons (w v : List Char) (ws : List (List Char)) :
    unwords (w :: v :: ws) = w ++ ' ' :: unwords (v :: ws) := by
  simp [unwords, List.intercalate]

theorem unwords_append {ws vs : List (List Char)} (hws : ws ≠ []) (hvs : vs ≠ []) :
    unwords (ws ++ vs) = unwords ws ++ ' ' :: unwords vs := by
  induction ws with
  | nil => exact absurd rfl hws
  | cons w ws ih =>
    cases ws with
    | nil =>
      obtain ⟨v, vs, rfl⟩ := List.exists_cons_of_ne_nil hvs
      rw [List.singleton_append, unwords_cons_cons]
      simp [unwords]
    | cons u ws =>
      have htail := ih (by simp)
      rw [List.cons_append] at htail
      rw [List.cons_append, List.cons_append, unwords_cons_cons, htail, unwords_cons_cons,
        List.append_assoc, List.cons_append]

/-- Texts with single spaces between them are the words of all of them with
single spaces between them. -/
theorem unwords_map_unwords {groups : List (List (List Char))} (h : ∀ ws ∈ groups, ws ≠ []) :
    unwords (groups.map unwords) = unwords groups.flatten := by
  induction groups with
  | nil => rfl
  | cons ws groups ih =>
    have htail := ih fun vs hvs => h vs (by simp [hvs])
    cases groups with
    | nil => simp [unwords]
    | cons vs groups =>
      have hne : (vs :: groups).flatten ≠ [] := by simp [h vs (by simp)]
      rw [List.flatten_cons, unwords_append (h ws (by simp)) hne, ← htail, List.map_cons,
        List.map_cons, unwords_cons_cons]

/-- Words are found again between single spaces. -/
theorem words_unwords {ws : List (List Char)}
    (h : ∀ w ∈ ws, w ≠ [] ∧ ∀ c ∈ w, isBlank c = false) : words (unwords ws) = ws := by
  induction ws with
  | nil => rfl
  | cons w ws ih =>
    obtain ⟨hw, hwChars⟩ := h w (by simp)
    have htail := ih fun u hu => h u (by simp [hu])
    cases ws with
    | nil =>
      have hsingle : words (w ++ []) = w :: words [] := words_run hw hwChars (by simp)
      simpa [unwords, words] using hsingle
    | cons v ws =>
      have hspace : isBlank ' ' = true := by decide
      rw [unwords_cons_cons, words_run hw hwChars (by simp [hspace]), words_cons_blank hspace,
        htail]

/-- Words are not empty and have no blank characters. -/
theorem ne_nil_and_not_blank_of_mem_words {s w : List Char} (h : w ∈ words s) :
    w ≠ [] ∧ ∀ c ∈ w, isBlank c = false := by
  induction s generalizing w with
  | nil => simp [words] at h
  | cons c rest ih =>
    by_cases hc : isBlank c = true
    · rw [words_cons_blank hc] at h
      exact ih h
    · rw [Bool.not_eq_true] at hc
      cases rest with
      | nil =>
        obtain rfl : w = [c] := by simpa [words, hc] using h
        simp [hc]
      | cons d rest =>
        by_cases hd : isBlank d = true
        · rw [words, if_neg (by simp [hc])] at h
          simp only [hd, if_true, List.mem_cons] at h
          rcases h with rfl | h
          · simp [hc]
          · exact ih h
        · rw [words, if_neg (by simp [hc])] at h
          simp only [hd, Bool.false_eq_true, if_false] at h
          cases hwords : words (d :: rest) with
          | nil =>
            obtain rfl : w = [c] := by simpa [hwords, extendFirst] using h
            simp [hc]
          | cons v vs =>
            rw [hwords, extendFirst, List.mem_cons] at h
            rw [hwords] at ih
            rcases h with rfl | h
            · obtain ⟨-, hv⟩ := ih (w := v) (by simp)
              simpa [hc] using hv
            · exact ih (by simp [h])

theorem flatten_extendFirst (c : Char) (ws : List (List Char)) :
    (extendFirst c ws).flatten = c :: ws.flatten := by
  cases ws <;> rfl

/-- The words are the text without its blank characters. -/
theorem flatten_words (s : List Char) : (words s).flatten = s.filter fun c => !isBlank c := by
  induction s with
  | nil => rfl
  | cons c rest ih =>
    by_cases hc : isBlank c = true
    · simp [words_cons_blank hc, hc, ih]
    · rw [Bool.not_eq_true] at hc
      rw [List.filter_cons_of_pos (by simp [hc]), ← ih]
      cases rest with
      | nil => simp [words, hc]
      | cons d rest =>
        rw [words, if_neg (by simp [hc])]
        split_ifs
        · rfl
        · exact flatten_extendFirst c _

theorem filter_unwords {ws : List (List Char)} (h : ∀ w ∈ ws, ∀ c ∈ w, isBlank c = false) :
    (unwords ws).filter (fun c => !isBlank c) = ws.flatten := by
  induction ws with
  | nil => rfl
  | cons w ws ih =>
    have hw : w.filter (fun c => !isBlank c) = w :=
      List.filter_eq_self.2 fun c hc => by simp [h w (by simp) c hc]
    have htail := ih fun u hu => h u (by simp [hu])
    cases ws with
    | nil => simpa [unwords] using hw
    | cons v ws =>
      have hspace : isBlank ' ' = true := by decide
      rw [unwords_cons_cons, List.filter_append, List.filter_cons_of_neg (by simp [hspace]), hw,
        htail]
      rfl

/-- A run in front of another character that is not blank belongs to the word
that begins there. -/
theorem words_glued {w rest : List Char} (hw : ∀ c ∈ w, isBlank c = false) {d : Char}
    (hrest : rest.head? = some d) (hd : isBlank d = false) :
    ∃ v vs, words rest = v :: vs ∧ v ≠ [] ∧ words (w ++ rest) = (w ++ v) :: vs := by
  induction w with
  | nil =>
    cases hwords : words rest with
    | nil =>
      -- The character is in a word of the text.
      have hmem : d ∈ rest.filter fun c => !isBlank c :=
        List.mem_filter.2 ⟨List.mem_of_mem_head? hrest, by simp [hd]⟩
      rw [← flatten_words, hwords] at hmem
      simp at hmem
    | cons v vs =>
      have hmem : v ∈ words rest := by simp [hwords]
      have hv : v ≠ [] := (ne_nil_and_not_blank_of_mem_words hmem).1
      exact ⟨v, vs, rfl, hv, hwords⟩
  | cons c w ih =>
    have hc : isBlank c = false := hw c (by simp)
    obtain ⟨v, vs, hwords, hv, htail⟩ := ih fun a ha => hw a (by simp [ha])
    refine ⟨v, vs, hwords, hv, ?_⟩
    have hnext : ∃ e tail, w ++ rest = e :: tail ∧ isBlank e = false := by
      cases w with
      | nil =>
        obtain ⟨tail, htail⟩ := List.head?_eq_some_iff.1 hrest
        exact ⟨d, tail, htail, hd⟩
      | cons e w => exact ⟨e, w ++ rest, rfl, hw e (by simp)⟩
    obtain ⟨e, tail, heq, he⟩ := hnext
    rw [List.cons_append, heq, words, if_neg (by simp [hc])]
    simp only [he, Bool.false_eq_true, if_false]
    rw [← heq, htail]
    rfl

theorem unwords_inj {ws vs : List (List Char)}
    (hws : ∀ w ∈ ws, w ≠ [] ∧ ∀ c ∈ w, isBlank c = false)
    (hvs : ∀ w ∈ vs, w ≠ [] ∧ ∀ c ∈ w, isBlank c = false) :
    unwords ws = unwords vs ↔ ws = vs := by
  refine ⟨fun h => ?_, congrArg unwords⟩
  rw [← words_unwords hws, h, words_unwords hvs]

end Text

end KineticText
