import KineticText.Proofs.Script.Conservation
import KineticText.Proofs.Tag.RoundTrip

/-!
# Writing and reading a script

Segments are written as a script by putting each text in front of the text of
its tag (`render`), with any blank text around a tag.  What is written is read
as the same segments, and everything that is read can be written so
(`read_render`).

There are four groups.

* Scripts of segments.  `IsScript` says which lists of segments are written,
  and `render` writes them.
* Scanning.  `scan_render` finds the words and the tags that were written.
* Reading the tokens.  `ofTokensFrom_tokensOf` makes the segments again.
* What is read is written and read without a change.
-/

namespace KineticText

namespace Script

/-! ## Scripts of segments -/

/-- Blank text in front of a tag and behind it. -/
structure Spacing where
  before : List Char
  after : List Char
  isBlank_before : ∀ c ∈ before, Text.isBlank c = true
  isBlank_after : ∀ c ∈ after, Text.isBlank c = true

/-- The text of a segment, and its tag with blank text around it. -/
def renderSegment (spacing : Spacing) (g : Segment) : List Char :=
  match g.tag with
  | none => g.text
  | some t => g.text ++ (spacing.before ++ (t.text ++ spacing.after))

/-- Segments one behind the other; the blank text is that of their index. -/
def render (spacing : ℕ → Spacing) (segments : List Segment) : List Char :=
  segments.flatMap fun g => renderSegment (spacing g.index) g

/-- A text is words with single spaces between them. -/
def IsText (s : List Char) : Prop :=
  ∃ ws, ws ≠ [] ∧ (∀ w ∈ ws, IsWord w) ∧ s = Text.unwords ws

/-- Segments with such texts, all but the last one tagged, and numbered from
`start`. -/
structure IsScript (start : ℕ) (segments : List Segment) : Prop where
  texts : ∀ g ∈ segments, IsText g.text
  tagged : ∀ g ∈ segments.dropLast, g.isTagged = true
  indices : segments.map Segment.index = List.range' start segments.length

section IsScript

variable {start : ℕ} {g : Segment} {segments : List Segment}

theorem IsScript.tail (h : IsScript start (g :: segments)) : IsScript (start + 1) segments where
  texts g' hg' := h.texts g' (by simp [hg'])
  tagged g' hg' := by
    cases segments with
    | nil => simp at hg'
    | cons g'' segments => exact h.tagged g' (by simp [hg'])
  indices := by
    have hindices := h.indices
    simp only [List.map_cons, List.length_cons, List.range'_succ, List.cons.injEq] at hindices
    exact hindices.2

theorem IsScript.index_head (h : IsScript start (g :: segments)) : g.index = start := by
  have hindices := h.indices
  simp only [List.map_cons, List.length_cons, List.range'_succ, List.cons.injEq] at hindices
  exact hindices.1

/-- A segment without a tag is the last one. -/
theorem IsScript.eq_nil_of_untagged (h : IsScript start (g :: segments)) (hg : g.tag = none) :
    segments = [] := by
  cases segments with
  | nil => rfl
  | cons g' segments =>
    have hhead := h.tagged g (by simp)
    simp [Segment.isTagged, hg] at hhead

end IsScript

/-- The same text, the same place and the same motion. -/
structure Agrees (g' g : Segment) : Prop where
  text_eq : g'.text = g.text
  index_eq : g'.index = g.index
  tag_rel : Option.Rel Tag.Agrees g'.tag g.tag

/-! ## Scanning -/

/-- The tokens that a segment is written as. -/
def tokensOf (g : Segment) : List Token :=
  (Text.words g.text).map .word ++ (g.tag.map fun t => .tag t.text).toList

/-- Behind a text there is a blank character or a bracket. -/
theorem head?_spacing (spacing : Spacing) (t : Tag) (rest : List Char) :
    ∀ c ∈ (spacing.before ++ (t.text ++ rest)).head?, Token.isWordChar c = false := by
  cases hbefore : spacing.before with
  | nil =>
    intro c hc
    have hopen : '<' = c := by simpa [Tag.text] using hc
    rw [← hopen]
    simp [Token.isWordChar]
  | cons b before =>
    intro c hc
    have hb : b = c := by simpa using hc
    have hblank := spacing.isBlank_before b (by simp [hbefore])
    rw [← hb]
    simp [Token.isWordChar, hblank]

theorem scan_renderSegment_append {g : Segment} {t : Tag} (hg : IsText g.text)
    (ht : g.tag = some t) (spacing : Spacing) (rest : List Char) :
    Token.scan (renderSegment spacing g ++ rest) = tokensOf g ++ Token.scan rest := by
  obtain ⟨ws, -, hws, htext⟩ := hg
  obtain ⟨inner, hinner, hbracketed⟩ := t.exists_inner_of_text
  have htag : Token.scan (t.text ++ (spacing.after ++ rest)) =
      .tag t.text :: Token.scan (spacing.after ++ rest) := by
    rw [hbracketed]
    exact Token.scan_append_of_bracketed hinner _
  rw [renderSegment, ht]
  simp only [List.append_assoc]
  rw [htext, Token.scan_unwords_append hws (head?_spacing spacing t _),
    Token.scan_append_of_blank spacing.isBlank_before, htag,
    Token.scan_append_of_blank spacing.isBlank_after]
  simp [tokensOf, htext, Token.words_unwords hws, ht]

theorem scan_renderSegment {g : Segment} (hg : IsText g.text) (ht : g.tag = none)
    (spacing : Spacing) : Token.scan (renderSegment spacing g) = tokensOf g := by
  obtain ⟨ws, -, hws, htext⟩ := hg
  have hscan : Token.scan (Text.unwords ws ++ []) = ws.map .word ++ Token.scan [] :=
    Token.scan_unwords_append hws (by simp)
  rw [List.append_nil] at hscan
  rw [renderSegment, ht]
  simp only
  rw [htext, hscan]
  simp [tokensOf, htext, Token.words_unwords hws, ht]

/-- The tokens of the segments are found in what is written. -/
theorem scan_render (spacing : ℕ → Spacing) {start : ℕ} {segments : List Segment}
    (h : IsScript start segments) :
    Token.scan (render spacing segments) = segments.flatMap tokensOf := by
  induction segments generalizing start with
  | nil => simp [render]
  | cons g segments ih =>
    have hg : IsText g.text := h.texts g (by simp)
    cases ht : g.tag with
    | none =>
      obtain rfl := h.eq_nil_of_untagged ht
      simpa [render] using scan_renderSegment hg ht (spacing g.index)
    | some t =>
      have hrest := ih h.tail
      rw [render] at hrest ⊢
      rw [List.flatMap_cons, scan_renderSegment_append hg ht, hrest, List.flatMap_cons]

/-! ## Reading the tokens -/

/-- Words at the front join the open ones. -/
theorem ofTokensFrom_words (ws : List (List Char)) (i count : ℕ) (group : List (List Char))
    (rest : List Token) :
    ofTokensFrom i count group (ws.map .word ++ rest) =
      ofTokensFrom (i + ws.length) count (group ++ ws) rest := by
  induction ws generalizing i group with
  | nil => simp
  | cons w ws ih =>
    rw [List.map_cons, List.cons_append, ofTokensFrom, ih, List.length_cons, List.append_assoc,
      List.singleton_append, Nat.add_right_comm, Nat.add_assoc]

theorem ofTokensFrom_closing {raw : List Char} {t : Tag} (hread : Tag.read raw = .ok t)
    {group : List (List Char)} (hgroup : group ≠ []) (i count : ℕ) (rest : List Token) :
    ofTokensFrom i count group (.tag raw :: rest) =
      ⟨segmentOf group (some t) count :: (ofTokensFrom (i + 1) (count + 1) [] rest).segments,
        (ofTokensFrom (i + 1) (count + 1) [] rest).diagnostics⟩ := by
  have hempty : group.isEmpty = false := by simpa using hgroup
  simp [ofTokensFrom, hread, hempty]

/-- The segments are made again from their tokens. -/
theorem ofTokensFrom_tokensOf {count : ℕ} {segments : List Segment} (h : IsScript count segments)
    (i : ℕ) :
    (ofTokensFrom i count [] (segments.flatMap tokensOf)).diagnostics = [] ∧
      List.Forall₂ Agrees (ofTokensFrom i count [] (segments.flatMap tokensOf)).segments
        segments := by
  induction segments generalizing i count with
  | nil => exact ⟨rfl, .nil⟩
  | cons g segments ih =>
    obtain ⟨ws, hne, hws, htext⟩ := h.texts g (by simp)
    have hwords : Text.words g.text = ws := htext ▸ Token.words_unwords hws
    cases ht : g.tag with
    | none =>
      obtain rfl := h.eq_nil_of_untagged ht
      have htokens : [g].flatMap tokensOf = ws.map .word ++ [] := by
        simp [tokensOf, hwords, ht]
      have hempty : ws.isEmpty = false := by simpa using hne
      rw [htokens, ofTokensFrom_words, List.nil_append, ofTokensFrom, hempty]
      refine ⟨rfl, .cons ⟨htext.symm, h.index_head.symm, ?_⟩ .nil⟩
      rw [ht]
      exact .none
    | some t =>
      obtain ⟨t', hread, hagrees⟩ := t.read_text
      have htokens : (g :: segments).flatMap tokensOf =
          ws.map .word ++ .tag t.text :: segments.flatMap tokensOf := by
        simp [tokensOf, hwords, ht]
      obtain ⟨hdiagnostics, hsegments⟩ := ih h.tail (i + ws.length + 1)
      rw [htokens, ofTokensFrom_words, List.nil_append, ofTokensFrom_closing hread hne]
      refine ⟨hdiagnostics, .cons ⟨htext.symm, h.index_head.symm, ?_⟩ hsegments⟩
      rw [ht]
      exact .some hagrees

/-! ## What is read is written and read without a change -/

/-- A segment as it is read: words in the text, a tag that was read, and no
times yet. -/
def IsRead (g : Segment) : Prop :=
  ∃ ws, ws ≠ [] ∧ (∀ w ∈ ws, IsWord w) ∧ g = segmentOf ws g.tag g.index ∧
    ∀ t, g.tag = some t → ∃ raw, Tag.read raw = .ok t

theorem isRead_ofTokensFrom {i count : ℕ} {group : List (List Char)} {rest : List Token}
    (hgroup : ∀ w ∈ group, IsWord w) (hrest : ∀ w, Token.word w ∈ rest → IsWord w) :
    ∀ g ∈ (ofTokensFrom i count group rest).segments, IsRead g := by
  fun_induction ofTokensFrom i count group rest with
  | case1 i count group =>
    intro g hg
    split_ifs at hg with hempty
    · simp at hg
    · obtain rfl := List.mem_singleton.1 hg
      exact ⟨group, mt List.isEmpty_iff.2 hempty, hgroup, rfl, by simp [segmentOf]⟩
  | case2 i count group w rest ih =>
    refine ih ?_ fun v hv => hrest v (by simp [hv])
    intro v hv
    rcases List.mem_append.1 hv with hv | hv
    · exact hgroup v hv
    · rw [List.mem_singleton.1 hv]
      exact hrest w (by simp)
  | case3 i count group raw rest e hread script ih =>
    exact ih hgroup fun v hv => hrest v (by simp [hv])
  | case4 i count group raw rest t hread hempty script ih =>
    exact ih hgroup fun v hv => hrest v (by simp [hv])
  | case5 i count group raw rest t hread hempty script ih =>
    intro g hg
    rcases List.mem_cons.1 hg with rfl | hg
    · refine ⟨group, mt List.isEmpty_iff.2 hempty, hgroup, rfl, fun t' ht' => ⟨raw, ?_⟩⟩
      rw [hread, Option.some.inj ht']
    · exact ih (by simp) (fun v hv => hrest v (by simp [hv])) g hg

theorem isRead_of_mem_read {s : List Char} {g : Segment} (hg : g ∈ (read s).segments) :
    IsRead g :=
  isRead_ofTokensFrom (by simp) (fun _ => Token.isWord_of_mem_scan) g hg

/-- Everything that is read is a script. -/
theorem isScript_read (s : List Char) : IsScript 0 (read s).segments where
  texts g hg := by
    obtain ⟨ws, hne, hws, hg, -⟩ := isRead_of_mem_read hg
    exact ⟨ws, hne, hws, congrArg Segment.text hg⟩
  tagged := isTagged_ofTokensFrom 0 0 [] (Token.scan s)
  indices := index_ofTokensFrom ..

theorem Agrees.eq_of_isRead {g' g : Segment} (h : Agrees g' g) (hg' : IsRead g')
    (hg : IsRead g) : g' = g := by
  obtain ⟨ws', -, hws', heq', -⟩ := hg'
  obtain ⟨ws, -, hws, heq, hread⟩ := hg
  have hwords : ws' = ws := by
    rw [← Token.words_unwords hws', ← Token.words_unwords hws]
    have htext := h.text_eq
    rw [heq', heq] at htext
    exact congrArg Text.words htext
  have htag : g'.tag = g.tag := by
    obtain ⟨-, -, hrel⟩ := h
    revert hrel hread
    generalize g'.tag = tag'
    generalize g.tag = tag
    rintro hread (hagrees | _)
    · obtain ⟨raw, hraw⟩ := hread _ rfl
      rw [hagrees.eq_of_read hraw]
    · rfl
  rw [heq', heq, hwords, htag, h.index_eq]

theorem eq_of_forall₂_agrees {gs' gs : List Segment} (h : List.Forall₂ Agrees gs' gs)
    (hgs' : ∀ g ∈ gs', IsRead g) (hgs : ∀ g ∈ gs, IsRead g) : gs' = gs := by
  induction h with
  | nil => rfl
  | cons hagrees _ ih =>
    rw [hagrees.eq_of_isRead (hgs' _ (by simp)) (hgs _ (by simp)),
      ih (fun g hg => hgs' g (by simp [hg])) fun g hg => hgs g (by simp [hg])]

theorem agrees_read_render (spacing : ℕ → Spacing) {segments : List Segment}
    (h : IsScript 0 segments) :
    (read (render spacing segments)).diagnostics = [] ∧
      List.Forall₂ Agrees (read (render spacing segments)).segments segments := by
  rw [read, scan_render spacing h]
  exact ofTokensFrom_tokensOf h 0

/-- Reading undoes writing, on all segments that make a script and without
exception on those that were read. -/
theorem read_render (spacing : ℕ → Spacing) :
    (∀ segments, IsScript 0 segments →
      (read (render spacing segments)).diagnostics = [] ∧
        List.Forall₂ Agrees (read (render spacing segments)).segments segments) ∧
      ∀ s, IsScript 0 (read s).segments ∧
        read (render spacing (read s).segments) = ⟨(read s).segments, []⟩ := by
  refine ⟨fun segments => agrees_read_render spacing, fun s => ⟨isScript_read s, ?_⟩⟩
  obtain ⟨hdiagnostics, hsegments⟩ := agrees_read_render spacing (isScript_read s)
  have heq := eq_of_forall₂_agrees hsegments (fun _ => isRead_of_mem_read)
    fun _ => isRead_of_mem_read
  cases hscript : read (render spacing (read s).segments)
  rw [hscript] at hdiagnostics heq
  rw [Script.mk.injEq]
  exact ⟨heq, hdiagnostics⟩

end Script

end KineticText
