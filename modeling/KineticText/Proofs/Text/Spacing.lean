import KineticText.Proofs.Text.Words
import Mathlib.Data.List.Chain

/-!
# Spacing

A text is spaced singly if its only blank characters are single spaces with
other characters on both sides.  The texts of this kind are those that words
make with single spaces between them: `isSpaced_unwords` is one direction, and
`unwords_words` the other.

In front of a text blank characters are no part of its words, however many
there are (`words_append_of_blank`).
-/

namespace KineticText.Text

/-! ## Single spaces -/

/-- The only blank characters are spaces, no two of them side by side and none
at either end. -/
structure IsSpaced (s : List Char) : Prop where
  space : ∀ c ∈ s, isBlank c = true → c = ' '
  single : s.IsChain fun a b => isBlank a = false ∨ isBlank b = false
  head : ∀ c ∈ s.head?, isBlank c = false
  last : ∀ c ∈ s.getLast?, isBlank c = false

variable {s w : List Char}

theorem isSpaced_nil : IsSpaced [] := ⟨by simp, .nil, by simp, by simp⟩

/-- A word is spaced singly, for it has no blank characters at all. -/
theorem isSpaced_of_not_blank (hw : ∀ c ∈ w, isBlank c = false) : IsSpaced w where
  space c hc hblank := by
    rw [hw c hc] at hblank
    cases hblank
  single := by
    refine (List.Pairwise.isChain ?_)
    exact List.pairwise_of_forall_mem_list fun a ha _ _ => .inl (hw a ha)
  head c hc := hw c (List.mem_of_mem_head? hc)
  last c hc := hw c (List.mem_of_mem_getLast? hc)

theorem unwords_cons_ne_nil {v : List Char} (hv : v ≠ []) (ws : List (List Char)) :
    unwords (v :: ws) ≠ [] := by
  cases ws with
  | nil => simpa [unwords] using hv
  | cons w ws => simp [unwords_cons_cons]

theorem isSpaced_append (hne : w ≠ []) (hw : ∀ c ∈ w, isBlank c = false) (hs : IsSpaced s)
    (hsne : s ≠ []) : IsSpaced (w ++ ' ' :: s) := by
  have hword := isSpaced_of_not_blank hw
  refine ⟨?_, ?_, ?_, ?_⟩
  · intro c hc hblank
    rcases List.mem_append.1 hc with hc | hc
    · exact hword.space c hc hblank
    · rcases List.mem_cons.1 hc with rfl | hc
      · rfl
      · exact hs.space c hc hblank
  · refine List.isChain_append.2 ⟨hword.single, ?_, ?_⟩
    · exact List.isChain_cons.2 ⟨fun c hc => .inr (hs.head c hc), hs.single⟩
    · exact fun a ha _ _ => .inl (hword.last a ha)
  · rw [List.head?_append_of_ne_nil _ hne]
    exact hword.head
  · rw [List.getLast?_append_of_ne_nil _ (List.cons_ne_nil _ _), List.getLast?_cons_of_ne_nil hsne]
    exact hs.last

theorem isSpaced_unwords {ws : List (List Char)}
    (h : ∀ w ∈ ws, w ≠ [] ∧ ∀ c ∈ w, isBlank c = false) : IsSpaced (unwords ws) := by
  induction ws with
  | nil => exact isSpaced_nil
  | cons w ws ih =>
    obtain ⟨hne, hw⟩ := h w (by simp)
    have htail := ih fun v hv => h v (by simp [hv])
    cases ws with
    | nil => simpa [unwords] using isSpaced_of_not_blank hw
    | cons v ws =>
      have hv : v ≠ [] := (h v (by simp)).1
      rw [unwords_cons_cons]
      exact isSpaced_append hne hw htail (unwords_cons_ne_nil hv ws)

/-- What stands behind a single space is spaced singly too, and is not
empty. -/
theorem IsSpaced.of_append (h : IsSpaced (w ++ ' ' :: s)) : s ≠ [] ∧ IsSpaced s := by
  have hspace : isBlank ' ' = true := by decide
  have hlast := h.last
  rw [List.getLast?_append_of_ne_nil _ (List.cons_ne_nil _ _)] at hlast
  have hs : s ≠ [] := by
    rintro rfl
    exact absurd (hlast ' ' rfl) (by simp [hspace])
  rw [List.getLast?_cons_of_ne_nil hs] at hlast
  obtain ⟨hhead, hsingle⟩ := List.isChain_cons.1 (List.isChain_append.1 h.single).2.1
  refine ⟨hs, fun c hc => h.space c (by simp [hc]), hsingle, fun c hc => ?_, hlast⟩
  exact (hhead c hc).resolve_left (by simp [hspace])

/-- A text that is spaced singly is a word, or a word and a space in front of
another text. -/
theorem IsSpaced.exists_word (h : IsSpaced s) (hs : s ≠ []) :
    ∃ w, w ≠ [] ∧ (∀ c ∈ w, isBlank c = false) ∧ (s = w ∨ ∃ rest, s = w ++ ' ' :: rest) := by
  obtain ⟨c, tail, rfl⟩ := List.exists_cons_of_ne_nil hs
  have hc : isBlank c = false := h.head c rfl
  have hsplit : (c :: tail).takeWhile (fun d => !isBlank d) ++
      (c :: tail).dropWhile (fun d => !isBlank d) = c :: tail :=
    List.takeWhile_append_dropWhile
  refine ⟨(c :: tail).takeWhile fun d => !isBlank d, by simp [hc], fun d hd => ?_, ?_⟩
  · simpa using List.mem_takeWhile_imp hd
  · cases hrest : (c :: tail).dropWhile fun d => !isBlank d with
    | nil => exact .inl (by rw [hrest, List.append_nil] at hsplit; exact hsplit.symm)
    | cons b rest =>
      have hb : isBlank b = true := by
        have hhead := List.head?_dropWhile_not (fun d => !isBlank d) (c :: tail)
        simpa [hrest] using hhead
      obtain rfl : b = ' ' := h.space b (by rw [← hsplit, hrest]; simp) hb
      exact .inr ⟨rest, by rw [← hrest, hsplit]⟩

/-- A text that is spaced singly is its words with single spaces between
them. -/
theorem unwords_words (h : IsSpaced s) : unwords (words s) = s := by
  induction hn : s.length using Nat.strong_induction_on generalizing s with
  | _ n ih =>
  by_cases hs : s = []
  · rw [hs]
    rfl
  · obtain ⟨w, hne, hw, heq | ⟨rest, rfl⟩⟩ := h.exists_word hs
    · have hsingle : words (w ++ []) = w :: words [] := words_run hne hw (by simp)
      rw [List.append_nil] at hsingle
      simp [heq, hsingle, words, unwords]
    · have hspace : isBlank ' ' = true := by decide
      obtain ⟨hrest, hspaced⟩ := h.of_append
      have hlength : rest.length < n := by
        rw [← hn, List.length_append, List.length_cons]
        omega
      have htail := ih _ hlength hspaced rfl
      cases hwords : words rest with
      | nil => exact absurd (by rw [← htail, hwords]; rfl) hrest
      | cons v vs =>
        rw [words_run hne hw (by simp [hspace]), words_cons_blank hspace, hwords,
          unwords_cons_cons, ← hwords, htail]

/-! ## Collapsed texts -/

theorem mem_of_mem_words {c : Char} (hw : w ∈ words s) (hc : c ∈ w) : c ∈ s := by
  have hflat : c ∈ (words s).flatten := List.mem_flatten.2 ⟨w, hw, hc⟩
  rw [flatten_words] at hflat
  exact List.mem_of_mem_filter hflat

theorem mem_unwords {c : Char} {ws : List (List Char)} (h : c ∈ unwords ws) :
    c = ' ' ∨ ∃ w ∈ ws, c ∈ w := by
  induction ws with
  | nil => simp [unwords] at h
  | cons w ws ih =>
    cases ws with
    | nil => exact .inr ⟨w, by simp, by simpa [unwords] using h⟩
    | cons v ws =>
      rw [unwords_cons_cons, List.mem_append, List.mem_cons] at h
      rcases h with hw | rfl | htail
      · exact .inr ⟨w, by simp, hw⟩
      · exact .inl rfl
      · refine (ih htail).imp_right fun h => ?_
        obtain ⟨u, hu, hc⟩ := h
        exact ⟨u, List.mem_cons_of_mem w hu, hc⟩

/-- The characters of a collapsed text are spaces and characters of the
text. -/
theorem mem_collapse {c : Char} (h : c ∈ collapse s) : c = ' ' ∨ c ∈ s := by
  refine (mem_unwords h).imp_right fun hword => ?_
  obtain ⟨w, hw, hc⟩ := hword
  exact mem_of_mem_words hw hc

theorem isSpaced_collapse (s : List Char) : IsSpaced (collapse s) :=
  isSpaced_unwords fun _ => ne_nil_and_not_blank_of_mem_words

/-! ## Any blank characters -/

theorem words_append_of_blank {run : List Char} (hrun : ∀ c ∈ run, isBlank c = true)
    (rest : List Char) : words (run ++ rest) = words rest := by
  induction run with
  | nil => rfl
  | cons b run ih =>
    rw [List.cons_append, words_cons_blank (hrun b (by simp)), ih fun c hc => hrun c (by simp [hc])]

end KineticText.Text
