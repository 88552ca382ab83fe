import KineticText.Proofs.Script.Token
import KineticText.Proofs.Tag.Span
import Mathlib.Data.List.Chain

/-!
# Where tokens stand

`Token.scan` says which tokens a text has; `placed` says in addition where each
of them begins.  The places are right: the tokens are those of the scan
(`map_snd_placed`), each stands in the text where it is said to
(`isPrefix_drop_of_mem_placed`), and one ends before the next begins
(`pairwise_placed`).

There are five groups: the places of tokens, the places from the front of a
text, why they are right, characters outside of tags, and words with what is
between them.
-/

namespace KineticText

namespace Token

/-! ## The places of tokens -/

/-- The tokens of a text that stands at an offset, each with the place of its
first character. -/
def placedFrom (offset : ℕ) (s : List Char) : List (ℕ × Token) :=
  match s with
  | [] => []
  | c :: rest =>
    if isWordChar c then
      let w := c :: rest.takeWhile isWordChar
      (offset, word w) :: placedFrom (offset + w.length) (rest.dropWhile isWordChar)
    else if c = '<' then
      match _h : Tag.untilClose? rest with
      | some (inner, tail) =>
        let raw := '<' :: (inner ++ ['>'])
        (offset, tag raw) :: placedFrom (offset + raw.length) tail
      | none => placedFrom (offset + 1) rest
    else placedFrom (offset + 1) rest
termination_by s.length
decreasing_by
  · have := length_dropWhile_le isWordChar rest
    simp only [List.length_cons]
    omega
  · have := Tag.length_lt_of_untilClose? _h
    simp only [List.length_cons]
    omega
  · simp
  · simp

def placed (s : List Char) : List (ℕ × Token) := placedFrom 0 s

/-! ## From the front -/

section Front

variable {c : Char} {w inner rest : List Char}

@[simp] theorem placedFrom_nil (offset : ℕ) : placedFrom offset [] = [] := by
  rw [placedFrom.eq_def]

theorem placedFrom_append_of_word (offset : ℕ) (hw : IsWord w)
    (hrest : ∀ c ∈ rest.head?, isWordChar c = false) :
    placedFrom offset (w ++ rest) = (offset, word w) :: placedFrom (offset + w.length) rest := by
  obtain ⟨hne, hchars⟩ := hw
  cases w with
  | nil => exact absurd rfl hne
  | cons c w =>
    have hw : ∀ d ∈ w, isWordChar d = true := fun d hd => hchars d (by simp [hd])
    rw [List.cons_append, placedFrom.eq_def]
    simp only [hchars c (by simp), if_true, takeWhile_run hw hrest, dropWhile_run hw hrest]

theorem placedFrom_append_of_bracketed (offset : ℕ) (h : '>' ∉ inner) :
    placedFrom offset ('<' :: (inner ++ ['>']) ++ rest) =
      (offset, tag ('<' :: (inner ++ ['>']))) ::
        placedFrom (offset + ('<' :: (inner ++ ['>'])).length) rest := by
  have hword : isWordChar '<' = false := by simp [isWordChar]
  have hclose : Tag.untilClose? (inner ++ ['>'] ++ rest) = some (inner, rest) := by
    rw [List.append_assoc, List.singleton_append, Tag.untilClose?_append h]
  rw [List.cons_append, placedFrom.eq_def]
  simp only [hword, Bool.false_eq_true, if_false, if_true]
  split
  · rename_i heq
    rw [hclose, Option.some.injEq, Prod.mk.injEq] at heq
    obtain ⟨rfl, rfl⟩ := heq
    rfl
  · rename_i heq
    rw [hclose] at heq
    cases heq

theorem placedFrom_cons_of_skip (offset : ℕ) (hc : isWordChar c = false)
    (h : c = '<' → '>' ∉ rest) :
    placedFrom offset (c :: rest) = placedFrom (offset + 1) rest := by
  rw [placedFrom.eq_def]
  simp only [hc, Bool.false_eq_true, if_false]
  split_ifs with hopen
  · split
    · rename_i heq
      rw [Tag.untilClose?_eq_none_iff.2 (h hopen)] at heq
      cases heq
    · rfl
  · rfl

/-- A token `n` characters further on. -/
def further (n : ℕ) (p : ℕ × Token) : ℕ × Token := (n + p.1, p.2)

theorem placedFrom_add (n offset : ℕ) (s : List Char) :
    placedFrom (n + offset) s = (placedFrom offset s).map (further n) := by
  induction s using scan_induction generalizing offset with
  | nil => simp
  | word w rest hw hrest ih =>
    rw [placedFrom_append_of_word _ hw hrest, placedFrom_append_of_word _ hw hrest, Nat.add_assoc,
      ih, List.map_cons, further]
  | bracketed inner rest hinner ih =>
    rw [placedFrom_append_of_bracketed _ hinner, placedFrom_append_of_bracketed _ hinner,
      Nat.add_assoc, ih, List.map_cons, further]
  | skip c rest hc hopen ih =>
    rw [placedFrom_cons_of_skip _ hc hopen, placedFrom_cons_of_skip _ hc hopen, Nat.add_assoc, ih]

theorem placedFrom_eq_map (n : ℕ) (s : List Char) : placedFrom n s = (placed s).map (further n) :=
  placedFrom_add n 0 s

@[simp] theorem placed_nil : placed [] = [] := placedFrom_nil 0

theorem placed_append_of_word (hw : IsWord w) (hrest : ∀ c ∈ rest.head?, isWordChar c = false) :
    placed (w ++ rest) = (0, word w) :: (placed rest).map (further w.length) := by
  rw [placed, placedFrom_append_of_word 0 hw hrest, Nat.zero_add, placedFrom_eq_map]

theorem placed_append_of_bracketed (h : '>' ∉ inner) :
    placed ('<' :: (inner ++ ['>']) ++ rest) =
      (0, tag ('<' :: (inner ++ ['>']))) ::
        (placed rest).map (further ('<' :: (inner ++ ['>'])).length) := by
  rw [placed, placedFrom_append_of_bracketed 0 h, Nat.zero_add, placedFrom_eq_map]

theorem placed_cons_of_skip (hc : isWordChar c = false) (h : c = '<' → '>' ∉ rest) :
    placed (c :: rest) = (placed rest).map (further 1) := by
  rw [placed, placedFrom_cons_of_skip 0 hc h, placedFrom_eq_map]

end Front

/-! ## The places are right -/

@[simp] theorem map_snd_further (n : ℕ) (ps : List (ℕ × Token)) :
    (ps.map (further n)).map Prod.snd = ps.map Prod.snd := by
  rw [List.map_map]
  rfl

theorem map_snd_placed (s : List Char) : (placed s).map Prod.snd = scan s := by
  induction s using scan_induction with
  | nil => simp
  | word w rest hw hrest ih =>
    rw [placed_append_of_word hw hrest, scan_append_of_word hw hrest, List.map_cons,
      map_snd_further, ih]
  | bracketed inner rest hinner ih =>
    rw [placed_append_of_bracketed hinner, scan_append_of_bracketed hinner, List.map_cons,
      map_snd_further, ih]
  | skip c rest hc hopen ih =>
    rw [placed_cons_of_skip hc hopen, map_snd_further, ih,
      scan_cons_of_skip hc fun h => Tag.untilClose?_eq_none_iff.2 (hopen h)]

/-- What stands in a text stands further on behind other text. -/
theorem isPrefix_drop_of_further (front : List Char) {rest : List Char} {p : ℕ × Token}
    (h : ∀ q ∈ placed rest, q.2.text <+: rest.drop q.1)
    (hp : p ∈ (placed rest).map (further front.length)) :
    p.2.text <+: (front ++ rest).drop p.1 := by
  obtain ⟨q, hq, rfl⟩ := List.mem_map.1 hp
  simpa only [further, List.drop_length_add_append] using h q hq

theorem isPrefix_drop_of_mem_placed {s : List Char} {p : ℕ × Token} (h : p ∈ placed s) :
    p.2.text <+: s.drop p.1 := by
  induction s using scan_induction generalizing p with
  | nil => simp at h
  | word w rest hw hrest ih =>
    rw [placed_append_of_word hw hrest] at h
    rcases List.mem_cons.1 h with rfl | h
    · exact List.prefix_append w rest
    · exact isPrefix_drop_of_further _ (fun q => ih) h
  | bracketed inner rest hinner ih =>
    rw [placed_append_of_bracketed hinner] at h
    rcases List.mem_cons.1 h with rfl | h
    · exact List.prefix_append _ rest
    · exact isPrefix_drop_of_further _ (fun q => ih) h
  | skip c rest hc hopen ih =>
    rw [placed_cons_of_skip hc hopen] at h
    exact isPrefix_drop_of_further [c] (fun q => ih) h

/-- The first token ends before the second one begins. -/
def EndsBefore (p q : ℕ × Token) : Prop := p.1 + p.2.text.length ≤ q.1

theorem pairwise_further {ps : List (ℕ × Token)} (n : ℕ) (h : ps.Pairwise EndsBefore) :
    (ps.map (further n)).Pairwise EndsBefore := by
  rw [List.pairwise_map]
  refine h.imp fun {p q} hpq => ?_
  simp only [EndsBefore, further] at hpq ⊢
  omega

theorem pairwise_cons_further {ps : List (ℕ × Token)} (t : Token) (h : ps.Pairwise EndsBefore) :
    ((0, t) :: ps.map (further t.text.length)).Pairwise EndsBefore := by
  refine List.pairwise_cons.2 ⟨fun q hq => ?_, pairwise_further _ h⟩
  obtain ⟨p, -, rfl⟩ := List.mem_map.1 hq
  simp only [EndsBefore, further]
  omega

theorem pairwise_placed (s : List Char) : (placed s).Pairwise EndsBefore := by
  induction s using scan_induction with
  | nil => simp
  | word w rest hw hrest ih =>
    rw [placed_append_of_word hw hrest]
    exact pairwise_cons_further (word w) ih
  | bracketed inner rest hinner ih =>
    rw [placed_append_of_bracketed hinner]
    exact pairwise_cons_further (tag ('<' :: (inner ++ ['>']))) ih
  | skip c rest hc hopen ih =>
    rw [placed_cons_of_skip hc hopen]
    exact pairwise_further 1 ih

/-- No token stands twice at one place. -/
theorem nodup_placed (s : List Char) : (placed s).Nodup := by
  refine (pairwise_placed s).imp_of_mem fun {p q} hp _ hpq heq => ?_
  have hmem : p.2 ∈ scan s := by
    rw [← map_snd_placed]
    exact List.mem_map_of_mem hp
  have hlength := List.length_pos_iff.2 (text_ne_nil_of_mem_scan hmem)
  rw [← heq, EndsBefore] at hpq
  omega

end Token

/-! ## Characters outside of tags -/

namespace Script

/-- The character at a place is of a class and belongs to no bracketed text. -/
def OpenChar (p : Char → Bool) (s : List Char) (k : ℕ) : Prop :=
  (∃ c ∈ s[k]?, p c = true) ∧ ¬Tag.Covered s k

section OpenChar

variable {p : Char → Bool} {c : Char} {front inner rest : List Char} {k : ℕ}

theorem openChar_append_iff (h : '<' ∉ front) :
    OpenChar p (front ++ rest) k ↔
      (∃ c ∈ front[k]?, p c = true) ∨ front.length ≤ k ∧ OpenChar p rest (k - front.length) := by
  rw [OpenChar, OpenChar, Tag.covered_append_iff h]
  rcases Nat.lt_or_ge k front.length with hlt | hge
  · simp [hlt, List.getElem?_append_left hlt, Nat.not_le.2 hlt]
  · simp [hge, List.getElem?_append_right hge]

theorem openChar_bracketed_iff (h : '>' ∉ inner) :
    OpenChar p ('<' :: (inner ++ ['>']) ++ rest) k ↔
      ('<' :: (inner ++ ['>'])).length ≤ k ∧
        OpenChar p rest (k - ('<' :: (inner ++ ['>'])).length) := by
  have hlength : ('<' :: (inner ++ ['>'])).length = inner.length + 2 := by simp
  rw [OpenChar, OpenChar, Tag.covered_bracketed_iff h, hlength]
  rcases Nat.lt_or_ge k (inner.length + 2) with hlt | hge
  · simp [hlt, Nat.not_le.2 hlt]
  · rw [List.getElem?_append_right (by omega), hlength]
    simp [hge, Nat.not_lt.2 hge]

theorem openChar_cons_iff (h : c = '<' → '>' ∉ rest) :
    OpenChar p (c :: rest) k ↔ k = 0 ∧ p c = true ∨ 1 ≤ k ∧ OpenChar p rest (k - 1) := by
  rw [OpenChar, OpenChar, Tag.covered_cons_iff fun hc => Tag.untilClose?_eq_none_iff.2 (h hc)]
  cases k <;> simp

end OpenChar

/-- The character at a place is blank and belongs to no bracketed text. -/
def OpenBlank (s : List Char) (k : ℕ) : Prop :=
  (∃ c ∈ s[k]?, Text.isBlank c = true) ∧ ¬Tag.Covered s k

section OpenBlank

variable {c : Char} {w inner rest : List Char} {k : ℕ}

theorem openBlank_append_of_word (hw : IsWord w) :
    OpenBlank (w ++ rest) k ↔ w.length ≤ k ∧ OpenBlank rest (k - w.length) := by
  refine (openChar_append_iff (Token.open_not_mem_of_isWord hw)).trans (or_iff_right ?_)
  rintro ⟨c, hc, hblank⟩
  have hword := Token.isWordChar_iff.1 (hw.isWordChar c (List.mem_of_getElem? hc))
  rw [hword.1] at hblank
  cases hblank

theorem openBlank_bracketed (h : '>' ∉ inner) :
    OpenBlank ('<' :: (inner ++ ['>']) ++ rest) k ↔
      ('<' :: (inner ++ ['>'])).length ≤ k ∧
        OpenBlank rest (k - ('<' :: (inner ++ ['>'])).length) :=
  openChar_bracketed_iff h

theorem openBlank_cons_of_skip (h : c = '<' → '>' ∉ rest) :
    OpenBlank (c :: rest) k ↔ k = 0 ∧ Text.isBlank c = true ∨ 1 ≤ k ∧ OpenBlank rest (k - 1) :=
  openChar_cons_iff h

end OpenBlank

/-! ## Words and what is between them -/

/-- The words of a text, each with the place of its first character. -/
def wordsAt (s : List Char) : List (ℕ × List Char) :=
  (Token.placed s).filterMap fun p => p.2.word?.map (p.1, ·)

/-- A word `n` characters further on. -/
def wordFurther (n : ℕ) (p : ℕ × List Char) : ℕ × List Char := (n + p.1, p.2)

/-- A blank character outside of tags stands between two words. -/
def BlankBetween (s : List Char) (p q : ℕ × List Char) : Prop :=
  ∃ k, p.1 + p.2.length ≤ k ∧ k < q.1 ∧ OpenBlank s k

section WordsAt

variable {c : Char} {w inner rest : List Char}

theorem map_snd_wordsAt (s : List Char) :
    (wordsAt s).map Prod.snd = (Token.scan s).filterMap Token.word? := by
  rw [← Token.map_snd_placed, wordsAt, List.map_filterMap, List.filterMap_map]
  refine List.filterMap_congr fun p _ => ?_
  obtain ⟨i, t⟩ := p
  cases t <;> rfl

theorem filterMap_further (n : ℕ) (ps : List (ℕ × Token)) :
    (ps.map (Token.further n)).filterMap (fun p => p.2.word?.map (p.1, ·)) =
      (ps.filterMap fun p => p.2.word?.map (p.1, ·)).map (wordFurther n) := by
  rw [List.map_filterMap, List.filterMap_map]
  refine List.filterMap_congr fun p _ => ?_
  obtain ⟨i, t⟩ := p
  cases t <;> rfl

@[simp] theorem wordsAt_nil : wordsAt [] = [] := by
  simp [wordsAt]

theorem wordsAt_append_of_word (hw : IsWord w)
    (hrest : ∀ c ∈ rest.head?, Token.isWordChar c = false) :
    wordsAt (w ++ rest) = (0, w) :: (wordsAt rest).map (wordFurther w.length) := by
  rw [wordsAt, Token.placed_append_of_word hw hrest, List.filterMap_cons_some (by rfl),
    filterMap_further, wordsAt]

theorem wordsAt_bracketed (h : '>' ∉ inner) :
    wordsAt ('<' :: (inner ++ ['>']) ++ rest) =
      (wordsAt rest).map (wordFurther ('<' :: (inner ++ ['>'])).length) := by
  rw [wordsAt, Token.placed_append_of_bracketed h, List.filterMap_cons_none (by rfl),
    filterMap_further, wordsAt]

theorem wordsAt_cons_of_skip (hc : Token.isWordChar c = false) (h : c = '<' → '>' ∉ rest) :
    wordsAt (c :: rest) = (wordsAt rest).map (wordFurther 1) := by
  rw [wordsAt, Token.placed_cons_of_skip hc h, filterMap_further, wordsAt]

/-- What stands between two words does not depend on the text in front of
them. -/
theorem isChain_further {s rest : List Char} {n : ℕ}
    (h : ∀ k, OpenBlank s (n + k) ↔ OpenBlank rest k) (ps : List (ℕ × List Char)) :
    (ps.map (wordFurther n)).IsChain (BlankBetween s) ↔ ps.IsChain (BlankBetween rest) := by
  rw [List.isChain_map]
  refine List.IsChain.iff fun p q => ?_
  simp only [BlankBetween, wordFurther]
  constructor
  · intro hbetween
    obtain ⟨k, hpk, hkq, hopen⟩ := hbetween
    obtain ⟨j, rfl⟩ := Nat.exists_eq_add_of_le (show n ≤ k by omega)
    exact ⟨j, by omega, by omega, (h j).1 hopen⟩
  · intro hbetween
    obtain ⟨k, hpk, hkq, hopen⟩ := hbetween
    exact ⟨n + k, by omega, by omega, (h k).2 hopen⟩

end WordsAt

end Script

end KineticText
