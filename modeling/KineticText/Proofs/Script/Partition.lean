import KineticText.Proofs.Script.Display
import KineticText.Proofs.Text.Substitution

/-!
# Every character has its part

Three functions look for tags in a text, and none of them calls another:
`Tag.spans` says where bracketed texts stand, `Token.scan` takes tokens off the
front, and `Script.withoutTags` leaves the tags out.  They agree on every text
(`isPartitioned`).  A character belongs to a bracketed text, which is a tag of
the scan and is left out; or it is a word character outside of all of them,
which belongs to a word and stays; or it is blank and stays; or it is a stray
bracket, which belongs to no token and is left out.

There are five groups: the characters of tokens, tags, words, what is left
out, and the assembly.
-/

namespace KineticText

/-! ## The characters of tokens -/

namespace Token

/-- The character at a place belongs to one of the tokens. -/
def Occupied (ps : List (ℕ × Token)) (k : ℕ) : Prop :=
  ∃ p ∈ ps, p.1 ≤ k ∧ k < p.1 + p.2.text.length

variable {ps : List (ℕ × Token)} {k n : ℕ}

theorem occupied_further_iff :
    Occupied (ps.map (further n)) k ↔ n ≤ k ∧ Occupied ps (k - n) := by
  constructor
  · intro h
    obtain ⟨q, hq, hstart, hstop⟩ := h
    obtain ⟨p, hp, rfl⟩ := List.mem_map.1 hq
    simp only [further] at hstart hstop
    exact ⟨by omega, p, hp, by omega, by omega⟩
  · intro h
    obtain ⟨hn, p, hp, hstart, hstop⟩ := h
    refine ⟨further n p, List.mem_map_of_mem hp, ?_, ?_⟩
    · show n + p.1 ≤ k
      omega
    · show k < n + p.1 + p.2.text.length
      omega

theorem occupied_cons_further_iff (t : Token) :
    Occupied ((0, t) :: ps.map (further t.text.length)) k ↔
      k < t.text.length ∨ t.text.length ≤ k ∧ Occupied ps (k - t.text.length) := by
  rw [← occupied_further_iff, Occupied, List.exists_mem_cons_iff, Nat.zero_add]
  exact or_congr_left (and_iff_right (Nat.zero_le k))

/-- The tokens take up the bracketed texts and the word characters outside of
them. -/
theorem occupied_placed_iff {s : List Char} {k : ℕ} :
    Occupied (placed s) k ↔ Tag.Covered s k ∨ Script.OpenChar isWordChar s k := by
  induction s using scan_induction generalizing k with
  | nil => simp [Occupied, Script.OpenChar]
  | word w rest hw hrest ih =>
    have hopen := open_not_mem_of_isWord hw
    have hchars : (∃ c ∈ w[k]?, isWordChar c = true) ↔ k < w.length := by
      constructor
      · intro h
        obtain ⟨c, hc, -⟩ := h
        exact (List.getElem?_eq_some_iff.1 hc).1
      · intro h
        exact ⟨w[k], List.getElem?_eq_getElem h, hw.isWordChar _ (List.getElem_mem h)⟩
    have hfront : Occupied ((0, word w) :: (placed rest).map (further w.length)) k ↔
        k < w.length ∨ w.length ≤ k ∧ Occupied (placed rest) (k - w.length) :=
      occupied_cons_further_iff (word w)
    rw [placed_append_of_word hw hrest, Script.openChar_append_iff hopen,
      Tag.covered_append_iff hopen, hchars, hfront, ih]
    exact ⟨by tauto, by tauto⟩
  | bracketed inner rest hinner ih =>
    have hlength : ('<' :: (inner ++ ['>'])).length = inner.length + 2 := by simp
    have hfront : Occupied ((0, tag ('<' :: (inner ++ ['>']))) ::
          (placed rest).map (further (inner.length + 2))) k ↔
        k < inner.length + 2 ∨ inner.length + 2 ≤ k ∧
          Occupied (placed rest) (k - (inner.length + 2)) := by
      rw [← hlength]
      exact occupied_cons_further_iff (tag ('<' :: (inner ++ ['>'])))
    rw [placed_append_of_bracketed hinner, Script.openChar_bracketed_iff hinner,
      Tag.covered_bracketed_iff hinner, hlength, hfront, ih]
    exact ⟨by tauto, by tauto⟩
  | skip c rest hc hopen ih =>
    rw [placed_cons_of_skip hc hopen, occupied_further_iff, ih, Script.openChar_cons_iff hopen,
      Tag.covered_cons_iff fun h => Tag.untilClose?_eq_none_iff.2 (hopen h), hc]
    exact ⟨by tauto, by tauto⟩

/-! ## Tags -/

/-- A tag with its place is a bracketed text. -/
def span? (p : ℕ × Token) : Option Tag.Span :=
  p.2.tag?.map fun raw => ⟨p.1, p.1 + raw.length, raw⟩

/-- The tags among tokens, each as a bracketed text. -/
def spansOf (ps : List (ℕ × Token)) : List Tag.Span := ps.filterMap span?

theorem span?_further (n : ℕ) (p : ℕ × Token) :
    span? (further n p) = (span? p).map (Tag.Span.shifted n) := by
  obtain ⟨i, t⟩ := p
  cases t with
  | word w => rfl
  | tag raw => simp [span?, further, tag?, Tag.Span.shifted, Nat.add_assoc]

theorem spansOf_further (n : ℕ) (ps : List (ℕ × Token)) :
    spansOf (ps.map (further n)) = (spansOf ps).map (Tag.Span.shifted n) := by
  rw [spansOf, spansOf, List.map_filterMap, List.filterMap_map]
  exact List.filterMap_congr fun p _ => span?_further n p

/-- The tags of the scan are the bracketed texts, and stand where these do. -/
theorem spansOf_placed (s : List Char) : spansOf (placed s) = Tag.spans s := by
  induction s using scan_induction with
  | nil => simp [spansOf]
  | word w rest hw hrest ih =>
    rw [placed_append_of_word hw hrest, Tag.spans_append (open_not_mem_of_isWord hw), ← ih,
      ← spansOf_further]
    rfl
  | bracketed inner rest hinner ih =>
    rw [placed_append_of_bracketed hinner, Tag.spans_bracketed hinner, ← ih, ← spansOf_further]
    simp [spansOf, span?, tag?]
  | skip c rest hc hopen ih =>
    rw [placed_cons_of_skip hc hopen, spansOf_further, ih,
      Tag.spans_cons_of_skip fun h => Tag.untilClose?_eq_none_iff.2 (hopen h)]

theorem filterMap_tag?_scan (s : List Char) :
    (scan s).filterMap tag? = (Tag.spans s).map Tag.Span.raw := by
  rw [← spansOf_placed, ← map_snd_placed, spansOf, List.map_filterMap, List.filterMap_map]
  refine List.filterMap_congr fun p _ => ?_
  obtain ⟨i, t⟩ := p
  cases t <;> rfl

/-- The token of a bracketed text stands where the bracketed text does. -/
theorem mem_placed_of_mem_spans {s : List Char} {span : Tag.Span} (h : span ∈ Tag.spans s) :
    (span.start, tag span.raw) ∈ placed s ∧ span.stop = span.start + span.raw.length := by
  rw [← spansOf_placed] at h
  obtain ⟨⟨i, t⟩, hp, hspan⟩ := List.mem_filterMap.1 h
  cases t with
  | word w => cases hspan
  | tag raw =>
    obtain rfl : ⟨i, i + raw.length, raw⟩ = span := by simpa [span?, tag?] using hspan
    exact ⟨hp, rfl⟩

end Token

/-- A bracketed text stands between its places, and has its only close bracket
at its end. -/
theorem Tag.extract_of_mem_spans {s : List Char} {span : Span} (h : span ∈ spans s) :
    s.extract span.start span.stop = span.raw ∧ isBracketed span.raw = true ∧
      '>' ∉ span.raw.dropLast := by
  obtain ⟨hplaced, hstop⟩ := Token.mem_placed_of_mem_spans h
  have hprefix := Token.isPrefix_drop_of_mem_placed hplaced
  have hscan : Token.tag span.raw ∈ Token.scan s := by
    rw [← Token.map_snd_placed]
    exact List.mem_map_of_mem hplaced
  obtain ⟨inner, hinner, hraw⟩ := Token.exists_inner_of_mem_scan hscan
  refine ⟨?_, ?_, ?_⟩
  · rw [List.extract_eq_take_drop, hstop, Nat.add_sub_cancel_left]
    exact (List.prefix_iff_eq_take.1 hprefix).symm
  · rw [hraw]
    exact isBracketed_of_not_mem hinner
  · rw [hraw, ← List.cons_append, List.dropLast_concat]
    simpa using hinner

namespace Script

/-- No close bracket follows an open one that belongs to no bracketed text. -/
theorem close_of_openChar {s : List Char} {i j : ℕ} (h : OpenChar (· = '<') s i) (hij : i < j) :
    s[j]? ≠ some '>' := by
  induction s using Token.scan_induction generalizing i j with
  | nil => simp
  | word w rest hw hrest ih =>
    have hopen := Token.open_not_mem_of_isWord hw
    rcases (openChar_append_iff hopen).1 h with ⟨c, hc, hbracket⟩ | ⟨hi, hrest⟩
    · rw [of_decide_eq_true hbracket] at hc
      exact absurd (List.mem_of_getElem? hc) hopen
    · rw [List.getElem?_append_right (by omega)]
      exact ih hrest (by omega)
  | bracketed inner rest hinner ih =>
    obtain ⟨hi, hrest⟩ := (openChar_bracketed_iff hinner).1 h
    rw [List.getElem?_append_right (by omega)]
    exact ih hrest (by omega)
  | skip c rest hc hopen ih =>
    obtain ⟨k, rfl⟩ := Nat.exists_eq_add_of_lt hij
    rw [List.getElem?_cons_succ]
    rcases (openChar_cons_iff hopen).1 h with ⟨-, hbracket⟩ | ⟨hi, hrest⟩
    · intro hclose
      exact hopen (of_decide_eq_true hbracket) (List.mem_of_getElem? hclose)
    · exact ih hrest (by omega)

/-! ## Words -/

/-- The text stands at a place, is made of word characters outside of bracketed
texts, and goes on with such a character at neither end. -/
structure IsRun (s : List Char) (i : ℕ) (w : List Char) : Prop where
  ne_nil : w ≠ []
  stands : w <+: s.drop i
  inside : ∀ k, i ≤ k → k < i + w.length → OpenChar Token.isWordChar s k
  before : ∀ k, k + 1 = i → ¬OpenChar Token.isWordChar s k
  after : ¬OpenChar Token.isWordChar s (i + w.length)

theorem IsRun.openChar {s w : List Char} {i : ℕ} (h : IsRun s i w) :
    OpenChar Token.isWordChar s i :=
  h.inside i le_rfl (Nat.lt_add_of_pos_right (List.length_pos_iff.2 h.ne_nil))

/-- A run of the rest is a run of the whole text, and the other way round, where
it does not go on into the text in front. -/
theorem isRun_further_iff {front rest w : List Char} {i : ℕ}
    (hopen : ∀ k, OpenChar Token.isWordChar (front ++ rest) (front.length + k) ↔
      OpenChar Token.isWordChar rest k)
    (hfront : ∀ k, k + 1 = front.length → OpenChar Token.isWordChar (front ++ rest) k →
      ¬OpenChar Token.isWordChar rest 0) :
    IsRun (front ++ rest) (front.length + i) w ↔ IsRun rest i w := by
  have hdrop : (front ++ rest).drop (front.length + i) = rest.drop i :=
    List.drop_length_add_append i
  constructor
  · intro h
    refine ⟨h.ne_nil, hdrop ▸ h.stands, fun k hstart hstop => ?_, fun k hk hbefore => ?_, ?_⟩
    · exact (hopen k).1 (h.inside _ (by omega) (by omega))
    · exact h.before (front.length + k) (by omega) ((hopen k).2 hbefore)
    · rw [← hopen, ← Nat.add_assoc]
      exact h.after
  · intro h
    refine ⟨h.ne_nil, hdrop ▸ h.stands, fun k hstart hstop => ?_, fun k hk hbefore => ?_, ?_⟩
    · obtain ⟨j, rfl⟩ := Nat.exists_eq_add_of_le (show front.length ≤ k by omega)
      exact (hopen j).2 (h.inside j (by omega) (by omega))
    · -- A run at the very beginning of the rest needs what is said of the front.
      cases i with
      | zero => exact hfront k (by omega) hbefore h.openChar
      | succ i =>
        obtain rfl : k = front.length + i := by omega
        exact h.before i rfl ((hopen i).1 hbefore)
    · rw [Nat.add_assoc, hopen]
      exact h.after

/-- Behind a text that belongs to no run, the runs are those of the rest. -/
theorem isRun_append_iff {front rest w : List Char} {i : ℕ}
    (h : ∀ k, OpenChar Token.isWordChar (front ++ rest) k ↔
      front.length ≤ k ∧ OpenChar Token.isWordChar rest (k - front.length)) :
    IsRun (front ++ rest) i w ↔ front.length ≤ i ∧ IsRun rest (i - front.length) w := by
  have hopen (k : ℕ) : OpenChar Token.isWordChar (front ++ rest) (front.length + k) ↔
      OpenChar Token.isWordChar rest k := by
    rw [h, Nat.add_sub_cancel_left]
    exact and_iff_right (Nat.le_add_right _ _)
  have hfront (k : ℕ) (hk : k + 1 = front.length)
      (hchar : OpenChar Token.isWordChar (front ++ rest) k) :
      ¬OpenChar Token.isWordChar rest 0 := by
    have hle := ((h k).1 hchar).1
    omega
  constructor
  · intro hrun
    obtain ⟨j, rfl⟩ := Nat.exists_eq_add_of_le ((h i).1 hrun.openChar).1
    refine ⟨Nat.le_add_right _ _, ?_⟩
    rw [Nat.add_sub_cancel_left]
    exact (isRun_further_iff hopen hfront).1 hrun
  · intro hrun
    obtain ⟨hle, hrun⟩ := hrun
    obtain ⟨j, rfl⟩ := Nat.exists_eq_add_of_le hle
    rw [Nat.add_sub_cancel_left] at hrun
    exact (isRun_further_iff hopen hfront).2 hrun

/-- A word at the front is a run, and the other runs are those of the rest. -/
theorem isRun_append_of_word_iff {v rest w : List Char} {i : ℕ} (hv : IsWord v)
    (hrest : ∀ c ∈ rest.head?, Token.isWordChar c = false) :
    IsRun (v ++ rest) i w ↔ i = 0 ∧ w = v ∨ v.length ≤ i ∧ IsRun rest (i - v.length) w := by
  have hbracket := Token.open_not_mem_of_isWord hv
  have hzero : ¬OpenChar Token.isWordChar rest 0 := by
    intro h
    obtain ⟨⟨c, hc, hword⟩, -⟩ := h
    rw [← List.head?_eq_getElem?] at hc
    rw [hrest c hc] at hword
    cases hword
  have hin (k : ℕ) (hk : k < v.length) : OpenChar Token.isWordChar (v ++ rest) k := by
    refine (openChar_append_iff hbracket).2 (.inl ⟨v[k], List.getElem?_eq_getElem hk, ?_⟩)
    exact hv.isWordChar _ (List.getElem_mem hk)
  have hopen (k : ℕ) : OpenChar Token.isWordChar (v ++ rest) (v.length + k) ↔
      OpenChar Token.isWordChar rest k := by
    simp [openChar_append_iff hbracket]
  have hend : ¬OpenChar Token.isWordChar (v ++ rest) v.length := fun h => hzero ((hopen 0).1 h)
  constructor
  · intro hrun
    rcases Nat.lt_or_ge i v.length with hlt | hge
    · -- It begins where the word begins and ends where the word ends.
      have hi : i = 0 := by
        by_contra hne
        exact hrun.before (i - 1) (by omega) (hin _ (by omega))
      subst hi
      have hlength : w.length = v.length := by
        refine le_antisymm ?_ ?_
        · by_contra hlt
          exact hend (hrun.inside _ (by omega) (by omega))
        · by_contra hlt
          exact hrun.after (hin _ (by omega))
      refine .inl ⟨rfl, (List.prefix_of_prefix_length_le hrun.stands ?_ hlength.le).eq_of_length
        hlength⟩
      exact List.prefix_append v rest
    · obtain ⟨j, rfl⟩ := Nat.exists_eq_add_of_le hge
      refine .inr ⟨hge, ?_⟩
      rw [Nat.add_sub_cancel_left]
      exact (isRun_further_iff hopen fun _ _ _ => hzero).1 hrun
  · rintro (⟨rfl, rfl⟩ | ⟨hle, hrun⟩)
    · refine ⟨hv.ne_nil, List.prefix_append w rest, fun k _ hstop => hin k (by omega),
        fun k hk => absurd hk (Nat.succ_ne_zero k), ?_⟩
      rw [Nat.zero_add]
      exact hend
    · obtain ⟨j, rfl⟩ := Nat.exists_eq_add_of_le hle
      rw [Nat.add_sub_cancel_left] at hrun
      exact (isRun_further_iff hopen fun _ _ _ => hzero).2 hrun

theorem mem_map_wordFurther_iff {ps : List (ℕ × List Char)} {n i : ℕ} {w : List Char} :
    (i, w) ∈ ps.map (wordFurther n) ↔ n ≤ i ∧ (i - n, w) ∈ ps := by
  rw [List.mem_map]
  constructor
  · intro h
    obtain ⟨⟨j, v⟩, hmem, heq⟩ := h
    obtain ⟨rfl, rfl⟩ := Prod.mk.inj heq
    exact ⟨Nat.le_add_right n j, by rwa [Nat.add_sub_cancel_left]⟩
  · intro h
    obtain ⟨hle, hmem⟩ := h
    exact ⟨_, hmem, Prod.ext (Nat.add_sub_cancel' hle) rfl⟩

/-- The words are the runs of word characters outside of bracketed texts. -/
theorem mem_wordsAt_iff {s w : List Char} {i : ℕ} : (i, w) ∈ wordsAt s ↔ IsRun s i w := by
  induction s using Token.scan_induction generalizing i with
  | nil =>
    rw [wordsAt_nil]
    refine iff_of_false List.not_mem_nil fun h => h.ne_nil ?_
    simpa using h.stands
  | word v rest hv hrest ih =>
    rw [wordsAt_append_of_word hv hrest, isRun_append_of_word_iff hv hrest, List.mem_cons,
      mem_map_wordFurther_iff, ih, Prod.mk.injEq]
  | bracketed inner rest hinner ih =>
    rw [wordsAt_bracketed hinner, mem_map_wordFurther_iff, ih,
      isRun_append_iff fun k => openChar_bracketed_iff hinner]
  | skip c rest hc hopen ih =>
    have hchar (k : ℕ) : OpenChar Token.isWordChar ([c] ++ rest) k ↔
        [c].length ≤ k ∧ OpenChar Token.isWordChar rest (k - [c].length) := by
      simp [openChar_cons_iff hopen, hc]
    rw [wordsAt_cons_of_skip hc hopen, mem_map_wordFurther_iff, ih]
    exact (isRun_append_iff hchar).symm

/-! ## What is left out -/

/-- A character that is left out: one of a bracketed text, or another bracket. -/
def IsLeftOut (s : List Char) (k : ℕ) (c : Char) : Prop := Tag.Covered s k ∨ c = '<' ∨ c = '>'

instance (s : List Char) (k : ℕ) (c : Char) : Decidable (IsLeftOut s k c) :=
  inferInstanceAs (Decidable (Tag.Covered s k ∨ c = '<' ∨ c = '>'))

/-- The characters of a text that are not left out. -/
def kept (s : List Char) : List Char :=
  Text.substitute (fun k c => if IsLeftOut s k c then [] else [c]) s

theorem kept_append {front rest : List Char}
    (h : ∀ k, Tag.Covered (front ++ rest) (front.length + k) ↔ Tag.Covered rest k) :
    kept (front ++ rest) =
      Text.substitute (fun k c => if IsLeftOut (front ++ rest) k c then [] else [c]) front ++
        kept rest := by
  rw [kept, Text.substitute_append, kept]
  congr 1
  exact Text.substitute_congr fun k c _ => if_congr (or_congr_left (h k)) rfl rfl

/-- What is left of a text without its bracketed texts and the stray brackets
are the characters that are in neither. -/
theorem bare_eq_kept (s : List Char) : bare s = kept s := by
  induction s using Token.scan_induction with
  | nil => rw [bare_nil]; rfl
  | word w rest hw hrest ih =>
    have hopen := Token.open_not_mem_of_isWord hw
    rw [bare_append_of_word hw, ih, kept_append fun k => by simp [Tag.covered_append_iff hopen]]
    congr 1
    refine (Text.substitute_eq_self fun k c hc => if_neg ?_).symm
    have hk := (List.getElem?_eq_some_iff.1 hc).1
    have hchar := (Token.isWordChar_iff.1 (hw.isWordChar c (List.mem_of_getElem? hc))).2
    simp [IsLeftOut, Tag.covered_append_iff hopen, Nat.not_le.2 hk, hchar]
  | bracketed inner rest hinner ih =>
    have hlength : ('<' :: (inner ++ ['>'])).length = inner.length + 2 := by simp
    have hcovered (k : ℕ) : Tag.Covered ('<' :: (inner ++ ['>']) ++ rest)
        (('<' :: (inner ++ ['>'])).length + k) ↔ Tag.Covered rest k := by
      rw [Tag.covered_bracketed_iff hinner, hlength, Nat.add_sub_cancel_left]
      simp
    rw [bare_bracketed hinner, ih, kept_append hcovered, Text.substitute_eq_nil, List.nil_append]
    intro k c hc
    have hk := (List.getElem?_eq_some_iff.1 hc).1
    exact if_pos (.inl ((Tag.covered_bracketed_iff hinner).2 (.inl (by omega))))
  | skip c rest hc hopen ih =>
    have hcovered (k : ℕ) : Tag.Covered ([c] ++ rest) k ↔ 1 ≤ k ∧ Tag.Covered rest (k - 1) :=
      Tag.covered_cons_iff fun h => Tag.untilClose?_eq_none_iff.2 (hopen h)
    have hkept : kept (c :: rest) =
        (if IsLeftOut (c :: rest) 0 c then [] else [c]) ++ kept rest := by
      have hbehind (k : ℕ) :
          Tag.Covered ([c] ++ rest) ([c].length + k) ↔ Tag.Covered rest k := by
        rw [hcovered, List.length_singleton, Nat.add_sub_cancel_left]
        exact and_iff_right (Nat.le_add_right 1 k)
      have happend := kept_append hbehind
      rwa [Text.substitute_cons, Text.substitute_nil, List.append_nil] at happend
    have hzero : IsLeftOut (c :: rest) 0 c ↔ c = '<' ∨ c = '>' := by
      refine or_iff_right fun h => ?_
      have hle := ((hcovered 0).1 h).1
      omega
    cases hblank : Text.isBlank c with
    | true =>
      have hbracket : ¬(c = '<' ∨ c = '>') := by
        rintro (rfl | rfl) <;> exact absurd hblank (by decide)
      rw [bare_cons_of_blank hblank, hkept, if_neg (hzero.not.2 hbracket), ih]
      rfl
    | false =>
      have hbracket : c = '<' ∨ c = '>' := by
        by_contra hne
        rw [not_or] at hne
        rw [Token.isWordChar_iff.2 ⟨hblank, hne⟩] at hc
        cases hc
      rw [bare_cons_of_bracket hc hblank hopen, hkept, if_pos (hzero.2 hbracket), ih]
      rfl

/-! ## The assembly -/

/-- The tokens of a text, the bracketed texts in it and what is left out of it
take the same characters for the same things. -/
structure IsPartitioned (s : List Char) : Prop where
  /-- Every token of the scan has its place. -/
  tokens : (Token.placed s).map Prod.snd = Token.scan s
  located : ∀ p ∈ Token.placed s, p.2.text <+: s.drop p.1
  disjoint : (Token.placed s).Pairwise Token.EndsBefore
  /-- What is in no token is blank or a bracket of no bracketed text. -/
  dropped : ∀ k c, s[k]? = some c → ¬Token.Occupied (Token.placed s) k →
    Text.isBlank c = true ∨ (c = '<' ∨ c = '>') ∧ ¬Tag.Covered s k
  tags : (Token.scan s).filterMap Token.tag? = (Tag.spans s).map Tag.Span.raw
  /-- The tags stand where the bracketed texts stand. -/
  tagPlaces : Token.spansOf (Token.placed s) = Tag.spans s
  spans : ∀ span ∈ Tag.spans s, s.extract span.start span.stop = span.raw ∧
    Tag.isBracketed span.raw = true ∧ '>' ∉ span.raw.dropLast
  /-- An open bracket of no bracketed text is never closed. -/
  unclosed : ∀ i j, s[i]? = some '<' → ¬Tag.Covered s i → i < j → s[j]? ≠ some '>'
  words : (wordsAt s).map Prod.snd = (Token.scan s).filterMap Token.word?
  /-- The words stand where the runs of word characters stand. -/
  wordPlaces : ∀ i w, (i, w) ∈ wordsAt s ↔ IsRun s i w
  /-- Bracketed texts and the other brackets are left out, and nothing else is
  before blank characters are put together. -/
  shown : displayText s = Text.collapse (kept s) ∧
    (withoutTags s).filter (fun c => c ≠ '<' && c ≠ '>') = kept s

/-- Every text is taken apart in one way by all that read it. -/
theorem isPartitioned (s : List Char) : IsPartitioned s where
  tokens := Token.map_snd_placed s
  located := fun _ => Token.isPrefix_drop_of_mem_placed
  disjoint := Token.pairwise_placed s
  dropped := by
    intro k c hc hfree
    rw [Token.occupied_placed_iff, not_or] at hfree
    obtain ⟨hcovered, hchar⟩ := hfree
    cases hblank : Text.isBlank c with
    | true => exact .inl rfl
    | false =>
      refine .inr ⟨?_, hcovered⟩
      by_contra hne
      rw [not_or] at hne
      exact hchar ⟨⟨c, hc, Token.isWordChar_iff.2 ⟨hblank, hne⟩⟩, hcovered⟩
  tags := Token.filterMap_tag?_scan s
  tagPlaces := Token.spansOf_placed s
  spans := fun _ => Tag.extract_of_mem_spans
  unclosed := fun i j hi hcovered hij =>
    close_of_openChar ⟨⟨'<', hi, decide_eq_true rfl⟩, hcovered⟩ hij
  words := map_snd_wordsAt s
  wordPlaces := fun _ _ => mem_wordsAt_iff
  shown := by
    have hkept : (withoutTags s).filter (fun c => c ≠ '<' && c ≠ '>') = kept s := bare_eq_kept s
    exact ⟨by rw [displayText, hkept], hkept⟩

end Script

end KineticText
