import KineticText.Proofs.Script.Plain

/-!
# Blank characters in a script

Outside of bracketed texts it does not matter how many blank characters stand
side by side, nor which, as long as there are some; and at the two ends there
may be any number, or none.  `IsRespaced` says that two texts differ in nothing
else.  They have the same tokens and are read alike (`IsRespaced.scan_eq`,
`IsRespaced.read_eq`), and a reader sees the same (`IsRespaced.displayText_eq`).

There are three groups: other blank characters at given places, texts that are
scanned and shown alike, and the texts that differ outside of brackets.
-/

namespace KineticText

namespace Text

/-! ## Other blank characters -/

/-- The same characters, but for blank runs that have become other blank runs.
They stand at places of the first text that are open. -/
inductive Respaced : (ℕ → Prop) → List Char → List Char → Prop where
  | nil {isOpen : ℕ → Prop} : Respaced isOpen [] []
  | keep {isOpen : ℕ → Prop} {s t : List Char} (c : Char)
      (h : Respaced (fun k => isOpen (1 + k)) s t) : Respaced isOpen (c :: s) (c :: t)
  | run {isOpen : ℕ → Prop} {s t run run' : List Char} (hne : run ≠ []) (hne' : run' ≠ [])
      (hrun : ∀ c ∈ run, isBlank c = true) (hrun' : ∀ c ∈ run', isBlank c = true)
      (hopen : ∀ k < run.length, isOpen k)
      (h : Respaced (fun k => isOpen (run.length + k)) s t) :
      Respaced isOpen (run ++ s) (run' ++ t)

namespace Respaced

variable {isOpen isOpen' : ℕ → Prop} {c : Char} {front s t : List Char}

theorem mono (h : Respaced isOpen s t) (himp : ∀ k, isOpen k → isOpen' k) :
    Respaced isOpen' s t := by
  induction h generalizing isOpen' with
  | nil => exact .nil
  | keep c _ ih => exact .keep c (ih fun k => himp _)
  | run hne hne' hrun hrun' hopen _ ih =>
    exact .run hne hne' hrun hrun' (fun k hk => himp k (hopen k hk)) (ih fun k => himp _)

theorem append_left (front : List Char) (h : Respaced (fun k => isOpen (front.length + k)) s t) :
    Respaced isOpen (front ++ s) (front ++ t) := by
  induction front generalizing isOpen with
  | nil => exact h.mono fun k => by simp
  | cons c front ih =>
    refine .keep c (ih (h.mono fun k hk => ?_))
    rwa [← Nat.add_assoc, Nat.add_comm 1]

theorem eq_nil (h : Respaced isOpen [] t) : t = [] := by
  generalize hs : ([] : List Char) = s at h
  cases h with
  | nil => rfl
  | keep c _ => cases hs
  | run hne _ _ _ _ _ => exact absurd (List.append_eq_nil_iff.1 hs.symm).1 hne

/-- The first character is kept, or it begins a blank run at an open place.  In
the second case, what is left of the run may as well be kept. -/
theorem of_cons (h : Respaced isOpen (c :: s) t) :
    (∃ t', t = c :: t' ∧ Respaced (fun k => isOpen (1 + k)) s t') ∨
      isOpen 0 ∧ isBlank c = true ∧ ∃ tail run' s' t', (∀ d ∈ tail, isBlank d = true) ∧
        run' ≠ [] ∧ (∀ d ∈ run', isBlank d = true) ∧ s = tail ++ s' ∧ t = run' ++ t' ∧
          Respaced (fun k => isOpen (1 + k)) (tail ++ s') (tail ++ t') := by
  generalize hs : c :: s = source at h
  cases h with
  | nil => cases hs
  | keep d h =>
    cases hs
    exact .inl ⟨_, rfl, h⟩
  | @run _ s' t' run run' hne hne' hrun hrun' hopen h =>
    cases run with
    | nil => exact absurd rfl hne
    | cons b tail =>
      obtain ⟨rfl, rfl⟩ := List.cons.inj hs
      refine .inr ⟨hopen 0 (by simp), hrun c (by simp), tail, run', s', t',
        fun d hd => hrun d (by simp [hd]), hne', hrun', rfl, rfl, ?_⟩
      refine append_left tail (h.mono fun k hk => ?_)
      rwa [← Nat.add_assoc, Nat.add_comm 1]

/-- A front without blank characters at open places is kept. -/
theorem of_append (h : Respaced isOpen (front ++ s) t)
    (hfront : ∀ k c, front[k]? = some c → isOpen k → isBlank c = false) :
    ∃ t', t = front ++ t' ∧ Respaced (fun k => isOpen (front.length + k)) s t' := by
  induction front generalizing isOpen t with
  | nil => exact ⟨t, rfl, h.mono fun k => by simp⟩
  | cons c front ih =>
    rcases h.of_cons with ⟨t', rfl, h'⟩ | ⟨hopen, hblank, -⟩
    · obtain ⟨t'', rfl, h''⟩ := ih h' fun k d hd => hfront (1 + k) d (by rwa [Nat.add_comm])
      refine ⟨t'', rfl, h''.mono fun k hk => ?_⟩
      rwa [← Nat.add_assoc, Nat.add_comm 1] at hk
    · rw [hfront 0 c rfl hopen] at hblank
      cases hblank

/-- The characters that are not blank stay. -/
theorem mem_iff (h : Respaced isOpen s t) (hc : isBlank c = false) : c ∈ s ↔ c ∈ t := by
  induction h with
  | nil => rfl
  | keep d _ ih => rw [List.mem_cons, List.mem_cons, ih]
  | run _ _ hrun hrun' _ _ ih =>
    have hnot {run : List Char} (hrun : ∀ d ∈ run, isBlank d = true) : c ∉ run := fun hmem => by
      rw [hrun c hmem] at hc
      cases hc
    simp [hnot hrun, hnot hrun', ih]

/-- Where the one text begins with a blank character, so does the other. -/
theorem head_or (h : Respaced isOpen s t) : s.head? = t.head? ∨
    (∀ c ∈ s.head?, isBlank c = true) ∧ ∀ c ∈ t.head?, isBlank c = true := by
  cases h with
  | nil => exact .inl rfl
  | keep c _ => exact .inl rfl
  | run hne hne' hrun hrun' _ _ =>
    rw [List.head?_append_of_ne_nil _ hne, List.head?_append_of_ne_nil _ hne']
    exact .inr ⟨fun c hc => hrun c (List.mem_of_mem_head? hc),
      fun c hc => hrun' c (List.mem_of_mem_head? hc)⟩

end Respaced

end Text

namespace Script

/-! ## Scanned and shown alike -/

theorem bare_append_of_blank {run : List Char} (hrun : ∀ c ∈ run, Text.isBlank c = true)
    (s : List Char) : bare (run ++ s) = run ++ bare s := by
  induction run with
  | nil => rfl
  | cons c run ih =>
    rw [List.cons_append, bare_cons_of_blank (hrun c (by simp)), ih fun d hd => hrun d (by simp [hd]),
      List.cons_append]

/-- The same tokens, the same words to see, and the first of them set off from
what stands in front of it in both texts or in none. -/
structure ReadsAlike (s t : List Char) : Prop where
  scan_eq : Token.scan s = Token.scan t
  words_bare_eq : Text.words (bare s) = Text.words (bare t)
  head_bare_iff : (∀ c ∈ (bare s).head?, Text.isBlank c = true) ↔
    ∀ c ∈ (bare t).head?, Text.isBlank c = true

namespace ReadsAlike

variable {c : Char} {w inner run run' tail s t : List Char}

theorem of_blank (hs : ∀ c ∈ s, Text.isBlank c = true) (ht : ∀ c ∈ t, Text.isBlank c = true) :
    ReadsAlike s t := by
  have hscan {s : List Char} (hs : ∀ c ∈ s, Text.isBlank c = true) : Token.scan s = [] := by
    simpa using Token.scan_append_of_blank hs []
  have hbare {s : List Char} (hs : ∀ c ∈ s, Text.isBlank c = true) : bare s = s := by
    simpa using bare_append_of_blank hs []
  have hwords {s : List Char} (hs : ∀ c ∈ s, Text.isBlank c = true) : Text.words s = [] := by
    simpa [Text.words] using Text.words_append_of_blank hs []
  refine ⟨by rw [hscan hs, hscan ht], by rw [hbare hs, hbare ht, hwords hs, hwords ht], ?_⟩
  rw [hbare hs, hbare ht]
  exact iff_of_true (fun c hc => hs c (List.mem_of_mem_head? hc))
    fun c hc => ht c (List.mem_of_mem_head? hc)

theorem word (hw : IsWord w) (hs : ∀ c ∈ s.head?, Token.isWordChar c = false)
    (ht : ∀ c ∈ t.head?, Token.isWordChar c = false) (h : ReadsAlike s t) :
    ReadsAlike (w ++ s) (w ++ t) := by
  obtain ⟨hscan, hwords, hhead⟩ := h
  have hblank := not_blank_of_isWord hw
  refine ⟨?_, ?_, ?_⟩
  · rw [Token.scan_append_of_word hw hs, Token.scan_append_of_word hw ht, hscan]
  · rw [bare_append_of_word hw, bare_append_of_word hw]
    by_cases hset : ∀ c ∈ (bare s).head?, Text.isBlank c = true
    · rw [Text.words_run hw.ne_nil hblank hset, Text.words_run hw.ne_nil hblank (hhead.1 hset),
        hwords]
    · -- The word is glued to the first word behind it, which is the same in both.
      have hset' := mt hhead.2 hset
      simp only [not_forall, Bool.not_eq_true] at hset hset'
      obtain ⟨c, hc, hcBlank⟩ := hset
      obtain ⟨d, hd, hdBlank⟩ := hset'
      obtain ⟨v, vs, hv, -, hglued⟩ := Text.words_glued hblank hc hcBlank
      obtain ⟨u, us, hu, -, hglued'⟩ := Text.words_glued hblank hd hdBlank
      obtain ⟨rfl, rfl⟩ := List.cons.inj (hv.symm.trans (hwords.trans hu))
      rw [hglued, hglued']
  · obtain ⟨c, w, rfl⟩ := List.exists_cons_of_ne_nil hw.ne_nil
    rw [bare_append_of_word hw, bare_append_of_word hw, List.cons_append, List.cons_append]
    exact Iff.rfl

theorem bracketed (hinner : '>' ∉ inner) (h : ReadsAlike s t) :
    ReadsAlike ('<' :: (inner ++ ['>']) ++ s) ('<' :: (inner ++ ['>']) ++ t) := by
  refine ⟨?_, ?_, ?_⟩
  · rw [Token.scan_append_of_bracketed hinner, Token.scan_append_of_bracketed hinner, h.scan_eq]
  · rw [bare_bracketed hinner, bare_bracketed hinner, h.words_bare_eq]
  · rw [bare_bracketed hinner, bare_bracketed hinner, h.head_bare_iff]

/-- A stray bracket. -/
theorem bracket (hword : Token.isWordChar c = false) (hc : Text.isBlank c = false)
    (hs : c = '<' → '>' ∉ s) (ht : c = '<' → '>' ∉ t) (h : ReadsAlike s t) :
    ReadsAlike (c :: s) (c :: t) := by
  refine ⟨?_, ?_, ?_⟩
  · rw [Token.scan_cons_of_skip hword fun h => Tag.untilClose?_eq_none_iff.2 (hs h),
      Token.scan_cons_of_skip hword fun h => Tag.untilClose?_eq_none_iff.2 (ht h), h.scan_eq]
  · rw [bare_cons_of_bracket hword hc hs, bare_cons_of_bracket hword hc ht, h.words_bare_eq]
  · rw [bare_cons_of_bracket hword hc hs, bare_cons_of_bracket hword hc ht, h.head_bare_iff]

/-- Blank runs, a part of which may have been taken off already. -/
theorem of_run (hne : run ≠ []) (hne' : run' ≠ []) (hrun : ∀ c ∈ run, Text.isBlank c = true)
    (hrun' : ∀ c ∈ run', Text.isBlank c = true) (htail : ∀ c ∈ tail, Text.isBlank c = true)
    (h : ReadsAlike (tail ++ s) (tail ++ t)) : ReadsAlike (run ++ s) (run' ++ t) := by
  obtain ⟨hscan, hwords, -⟩ := h
  rw [Token.scan_append_of_blank htail, Token.scan_append_of_blank htail] at hscan
  rw [bare_append_of_blank htail, bare_append_of_blank htail, Text.words_append_of_blank htail,
    Text.words_append_of_blank htail] at hwords
  refine ⟨?_, ?_, ?_⟩
  · rw [Token.scan_append_of_blank hrun, Token.scan_append_of_blank hrun', hscan]
  · rw [bare_append_of_blank hrun, bare_append_of_blank hrun', Text.words_append_of_blank hrun,
      Text.words_append_of_blank hrun', hwords]
  · rw [bare_append_of_blank hrun, bare_append_of_blank hrun', List.head?_append_of_ne_nil _ hne,
      List.head?_append_of_ne_nil _ hne']
    exact iff_of_true (fun c hc => hrun c (List.mem_of_mem_head? hc))
      fun c hc => hrun' c (List.mem_of_mem_head? hc)

end ReadsAlike

/-! ## Other blank characters outside of brackets -/

theorem isWordChar_of_isBlank {c : Char} (h : Text.isBlank c = true) :
    Token.isWordChar c = false := by
  simp [Token.isWordChar, h]

/-- In front of a blank character or a bracket, and in front of nothing but
blank characters, a word ends. -/
theorem head_append_of_blank {s trail : List Char} (hs : ∀ c ∈ s.head?, Token.isWordChar c = false)
    (htrail : ∀ c ∈ trail, Text.isBlank c = true) :
    ∀ c ∈ (s ++ trail).head?, Token.isWordChar c = false := by
  cases s with
  | nil => exact fun c hc => isWordChar_of_isBlank (htrail c (List.mem_of_mem_head? hc))
  | cons d s => exact hs

/-- Blank runs that are in no bracketed text may be others. -/
theorem readsAlike_of_respaced {s t trail trail' : List Char}
    (htrail : ∀ c ∈ trail, Text.isBlank c = true)
    (htrail' : ∀ c ∈ trail', Text.isBlank c = true)
    (h : Text.Respaced (fun k => ¬Tag.Covered (s ++ trail) k) s t) :
    ReadsAlike (s ++ trail) (t ++ trail') := by
  have hclose {run : List Char} (hrun : ∀ c ∈ run, Text.isBlank c = true) : '>' ∉ run :=
    fun hmem => absurd (hrun '>' hmem) (by decide)
  induction s using Token.scan_induction generalizing t with
  | nil =>
    obtain rfl := h.eq_nil
    exact .of_blank htrail htrail'
  | word w rest hw hrest ih =>
    obtain ⟨t, rfl, hbehind⟩ := h.of_append fun k c hc _ =>
      not_blank_of_isWord hw c (List.mem_of_getElem? hc)
    have ht : ∀ c ∈ t.head?, Token.isWordChar c = false := by
      rcases hbehind.head_or with heq | ⟨-, hblank⟩
      · rwa [← heq]
      · exact fun c hc => isWordChar_of_isBlank (hblank c hc)
    rw [List.append_assoc, List.append_assoc]
    refine .word hw (head_append_of_blank hrest htrail) (head_append_of_blank ht htrail')
      (ih (hbehind.mono fun k hk hcovered => hk ?_))
    rw [List.append_assoc, Tag.covered_append_iff (Token.open_not_mem_of_isWord hw),
      Nat.add_sub_cancel_left]
    exact ⟨Nat.le_add_right _ _, hcovered⟩
  | bracketed inner rest hinner ih =>
    have hlength : ('<' :: (inner ++ ['>'])).length = inner.length + 2 := by simp
    obtain ⟨t, rfl, hbehind⟩ := h.of_append fun k c hc hopen => by
      refine absurd ?_ hopen
      rw [List.append_assoc, Tag.covered_bracketed_iff hinner, ← hlength]
      exact .inl (List.getElem?_eq_some_iff.1 hc).1
    rw [List.append_assoc, List.append_assoc]
    refine .bracketed hinner (ih (hbehind.mono fun k hk hcovered => hk ?_))
    rw [List.append_assoc, Tag.covered_bracketed_iff hinner, hlength, Nat.add_sub_cancel_left]
    exact .inr ⟨Nat.le_add_right _ _, hcovered⟩
  | skip c rest hc hopen ih =>
    have hrest : c = '<' → '>' ∉ rest ++ trail := fun heq => by
      simp [hopen heq, hclose htrail]
    have hshift {t : List Char}
        (h : Text.Respaced (fun k => ¬Tag.Covered (c :: (rest ++ trail)) (1 + k)) rest t) :
        Text.Respaced (fun k => ¬Tag.Covered (rest ++ trail) k) rest t := by
      refine h.mono fun k hk hcovered => hk ?_
      rw [Tag.covered_cons_iff fun heq => Tag.untilClose?_eq_none_iff.2 (hrest heq),
        Nat.add_sub_cancel_left]
      exact ⟨Nat.le_add_right _ _, hcovered⟩
    rcases h.of_cons with ⟨t, rfl, hbehind⟩ |
      ⟨-, hblank, tail, run', s', t', htail, hne', hrun', rfl, rfl, hbehind⟩
    · have hih := ih (hshift hbehind)
      rw [List.cons_append, List.cons_append]
      cases hblank : Text.isBlank c with
      | true =>
        have hone : ∀ d ∈ [c], Text.isBlank d = true := by simp [hblank]
        exact .of_run (List.cons_ne_nil c []) (List.cons_ne_nil c []) hone hone
          (List.forall_mem_nil _) hih
      | false =>
        refine .bracket hc hblank hrest (fun heq => ?_) hih
        rw [List.mem_append, not_or]
        exact ⟨mt (hbehind.mem_iff (by decide)).2 (hopen heq), hclose htrail'⟩
    · have hih := ih (hshift hbehind)
      rw [List.append_assoc, List.append_assoc] at hih
      have hrun : ∀ d ∈ c :: tail, Text.isBlank d = true := by
        simpa [hblank] using htail
      have halike := ReadsAlike.of_run (by simp) hne' hrun hrun' htail hih
      simpa using halike

/-- Two texts that differ in the blank characters at their ends and in blank
runs that are in no bracketed text. -/
inductive IsRespaced : List Char → List Char → Prop where
  | intro {lead core trail lead' core' trail' : List Char}
      (hlead : ∀ c ∈ lead, Text.isBlank c = true) (htrail : ∀ c ∈ trail, Text.isBlank c = true)
      (hlead' : ∀ c ∈ lead', Text.isBlank c = true) (htrail' : ∀ c ∈ trail', Text.isBlank c = true)
      (hcore : Text.Respaced
        (fun k => ¬Tag.Covered (lead ++ core ++ trail) (lead.length + k)) core core') :
      IsRespaced (lead ++ core ++ trail) (lead' ++ core' ++ trail')

namespace IsRespaced

variable {s t : List Char}

/-- Behind the blank characters at the front, the texts read alike. -/
theorem exists_readsAlike (h : IsRespaced s t) :
    ∃ lead lead' core core', (∀ c ∈ lead, Text.isBlank c = true) ∧
      (∀ c ∈ lead', Text.isBlank c = true) ∧ s = lead ++ core ∧ t = lead' ++ core' ∧
        ReadsAlike core core' := by
  obtain ⟨hlead, htrail, hlead', htrail', hcore⟩ := h
  refine ⟨_, _, _, _, hlead, hlead', List.append_assoc .., List.append_assoc .., ?_⟩
  refine readsAlike_of_respaced htrail htrail' (hcore.mono fun k hk hcovered => hk ?_)
  have hopen : '<' ∉ _ := fun hmem => absurd (hlead '<' hmem) (by decide)
  rw [List.append_assoc, Tag.covered_append_iff hopen, Nat.add_sub_cancel_left]
  exact ⟨Nat.le_add_right _ _, hcovered⟩

theorem scan_eq (h : IsRespaced s t) : Token.scan s = Token.scan t := by
  obtain ⟨lead, lead', core, core', hlead, hlead', rfl, rfl, halike⟩ := h.exists_readsAlike
  rw [Token.scan_append_of_blank hlead, Token.scan_append_of_blank hlead', halike.scan_eq]

theorem read_eq (h : IsRespaced s t) : read s = read t := by
  rw [read, h.scan_eq, read]

theorem displayText_eq (h : IsRespaced s t) : displayText s = displayText t := by
  obtain ⟨lead, lead', core, core', hlead, hlead', rfl, rfl, halike⟩ := h.exists_readsAlike
  rw [displayText, displayText, ← bare, ← bare, Text.collapse, Text.collapse,
    bare_append_of_blank hlead, bare_append_of_blank hlead', Text.words_append_of_blank hlead,
    Text.words_append_of_blank hlead', halike.words_bare_eq]

end IsRespaced

end Script

end KineticText
