import KineticText.Proofs.Script.Conservation
import KineticText.Proofs.Tag.Span

/-!
# Reading one text behind another

A text that leaves no bracket open and no words without a tag can be read on
its own: what stands behind it is read as if it began there (`read_append`),
only that segments and tokens count on.

There are three groups: tokens, the reader, and both together.
-/

namespace KineticText

/-! ## Tokens -/

/-- Every open bracket belongs to a bracketed text. -/
def Tag.IsClosed (s : List Char) : Prop := ∀ k, s[k]? = some '<' → Covered s k

theorem Tag.isClosed_iff {s : List Char} :
    IsClosed s ↔ ∀ k < s.length, s[k]? = some '<' → Covered s k := by
  constructor
  · intro h k _
    exact h k
  · intro h k hk
    exact h k (List.getElem?_eq_some_iff.1 hk).1 hk

instance (s : List Char) : Decidable (Tag.IsClosed s) := decidable_of_iff' _ Tag.isClosed_iff

theorem Tag.IsClosed.of_append (front : List Char) {rest : List Char}
    (hcovered : ∀ k, Covered (front ++ rest) (front.length + k) → Covered rest k)
    (h : IsClosed (front ++ rest)) : IsClosed rest := by
  intro k hk
  refine hcovered k (h _ ?_)
  rwa [List.getElem?_append_right (Nat.le_add_right _ _), Nat.add_sub_cancel_left]

/-- The tokens end with a tag, or there are none. -/
def Token.EndsClosed (tokens : List Token) : Prop := ∀ t ∈ tokens.getLast?, t.word? = none

theorem Token.EndsClosed.tail {t : Token} {tokens : List Token} (h : EndsClosed (t :: tokens)) :
    EndsClosed tokens := by
  intro u hu
  refine h u ?_
  rw [List.getLast?_cons, Option.mem_def.1 hu]
  rfl

theorem Token.EndsClosed.cons {t : Token} {tokens : List Token} (h : EndsClosed tokens)
    (ht : tokens = [] → t.word? = none) : EndsClosed (t :: tokens) := by
  intro u hu
  cases tokens with
  | nil =>
    obtain rfl : t = u := by simpa using hu
    exact ht rfl
  | cons v tokens => exact h u (by simpa [List.getLast?_cons] using hu)

theorem Token.EndsClosed.ne_nil {w : List Char} {tokens : List Token}
    (h : EndsClosed (word w :: tokens)) : tokens ≠ [] := by
  rintro rfl
  cases h (word w) (by simp)

/-- A text without an open end is scanned on its own. -/
theorem Token.scan_append {a : List Char} (hclosed : Tag.IsClosed a)
    (hends : EndsClosed (scan a)) (b : List Char) : scan (a ++ b) = scan a ++ scan b := by
  induction a using scan_induction with
  | nil => simp
  | word w rest hw hrest ih =>
    have hopen : '<' ∉ w := open_not_mem_of_isWord hw
    rw [scan_append_of_word hw hrest] at hends ⊢
    have hrestClosed : Tag.IsClosed rest :=
      hclosed.of_append w fun k hk => by simpa [Tag.covered_append_iff hopen] using hk
    obtain ⟨c, rest, rfl⟩ : ∃ c tail, rest = c :: tail := by
      refine List.exists_cons_of_ne_nil ?_
      rintro rfl
      exact hends.ne_nil scan_nil
    rw [List.append_assoc, scan_append_of_word hw (by simpa using hrest), ih hrestClosed hends.tail,
      List.cons_append]
  | bracketed inner rest hinner ih =>
    rw [scan_append_of_bracketed hinner] at hends ⊢
    have hrestClosed : Tag.IsClosed rest := by
      refine hclosed.of_append ('<' :: (inner ++ ['>'])) fun k hk => ?_
      rcases (Tag.covered_bracketed_iff hinner).1 hk with hlt | ⟨-, hcovered⟩
      · simp only [List.length_cons, List.length_append, List.length_nil] at hlt
        omega
      · simpa using hcovered
    rw [List.append_assoc, scan_append_of_bracketed hinner, ih hrestClosed hends.tail,
      List.cons_append]
  | skip c rest hc hopen ih =>
    have hskip {tail : List Char} (htail : c = '<' → '>' ∉ tail) : scan (c :: tail) = scan tail :=
      scan_cons_of_skip hc fun h => Tag.untilClose?_eq_none_iff.2 (htail h)
    have hcovered {k : ℕ} := Tag.covered_cons_iff (k := k) fun h =>
      Tag.untilClose?_eq_none_iff.2 (hopen h)
    have hne : c ≠ '<' := by
      rintro rfl
      have hzero := hcovered.1 (hclosed 0 rfl)
      omega
    have hrestClosed : Tag.IsClosed rest :=
      hclosed.of_append [c] fun k hk => by simpa using (hcovered.1 hk).2
    rw [hskip hopen] at hends ⊢
    rw [List.cons_append, hskip (absurd · hne), ih hrestClosed hends]

/-! ## The reader -/

/-- The same diagnostic, `n` tokens further on. -/
def Diagnostic.shifted (n : ℕ) (d : Diagnostic) : Diagnostic :=
  { d with tokenIndex := d.tokenIndex.map (· + n) }

/-- The same segment, `m` segments further on. -/
def Segment.renumbered (m : ℕ) (s : Segment) : Segment := { s with index := s.index + m }

namespace Script

/-- Where a script counts from shows in the numbers of its segments and in the
places of its diagnostics only. -/
theorem ofTokensFrom_add (n m i count : ℕ) (group : List (List Char)) (tokens : List Token) :
    ofTokensFrom (i + n) (count + m) group tokens =
      ⟨(ofTokensFrom i count group tokens).segments.map (Segment.renumbered m),
        (ofTokensFrom i count group tokens).diagnostics.map (Diagnostic.shifted n)⟩ := by
  fun_induction ofTokensFrom i count group tokens with
  | case1 i count group =>
    rw [ofTokensFrom]
    split_ifs <;> rfl
  | case2 i count group w rest ih => rw [ofTokensFrom, Nat.add_right_comm, ih]
  | case3 i count group raw rest e hread script ih =>
    rw [ofTokensFrom]
    simp only [hread, Nat.add_right_comm i n 1, ih]
    rfl
  | case4 i count group raw rest t hread hempty script ih =>
    rw [ofTokensFrom]
    simp only [hread, hempty, if_true, Nat.add_right_comm i n 1, ih]
    rfl
  | case5 i count group raw rest t hread hempty script ih =>
    rw [ofTokensFrom]
    simp only [hread, hempty, Bool.false_eq_true, if_false, Nat.add_right_comm i n 1,
      Nat.add_right_comm count m 1, ih]
    rfl

/-- Words left open become a segment without a tag. -/
theorem eq_nil_of_isTagged {group : List (List Char)} {count : ℕ}
    (h : ∀ s ∈ if group.isEmpty then [] else [segmentOf group none count], s.isTagged = true) :
    group = [] := by
  by_contra hne
  cases h (segmentOf group none count) (by simp [hne])

/-- If every segment has a tag, the last token is a tag and no word is left
open. -/
theorem endsClosed_of_isTagged {i count : ℕ} {group : List (List Char)} {tokens : List Token}
    (h : ∀ s ∈ (ofTokensFrom i count group tokens).segments, s.isTagged = true) :
    Token.EndsClosed tokens ∧ (tokens = [] → group = []) := by
  fun_induction ofTokensFrom i count group tokens with
  | case1 i count group => exact ⟨by simp [Token.EndsClosed], fun _ => eq_nil_of_isTagged h⟩
  | case2 i count group w rest ih =>
    obtain ⟨hends, hgroup⟩ := ih h
    exact ⟨hends.cons fun hrest => absurd (hgroup hrest) (by simp), by simp⟩
  | case3 i count group raw rest e hread script ih => exact ⟨(ih h).1.cons fun _ => rfl, by simp⟩
  | case4 i count group raw rest t hread hempty script ih =>
    exact ⟨(ih h).1.cons fun _ => rfl, by simp⟩
  | case5 i count group raw rest t hread hempty script ih =>
    have htail := ih fun s hs => h s (List.mem_cons_of_mem _ hs)
    exact ⟨htail.1.cons fun _ => rfl, by simp⟩

/-- Behind tokens that leave no word open, a script is read as if it began
there. -/
theorem ofTokensFrom_append {i count : ℕ} {group : List (List Char)} {xs : List Token}
    (h : ∀ s ∈ (ofTokensFrom i count group xs).segments, s.isTagged = true) (ys : List Token) :
    ofTokensFrom i count group (xs ++ ys) =
      let first := ofTokensFrom i count group xs
      let second := ofTokensFrom (i + xs.length) (count + first.segments.length) [] ys
      ⟨first.segments ++ second.segments, first.diagnostics ++ second.diagnostics⟩ := by
  fun_induction ofTokensFrom i count group xs with
  | case1 i count group =>
    obtain rfl := eq_nil_of_isTagged h
    simp
  | case2 i count group w rest ih =>
    rw [List.cons_append, ofTokensFrom, ih h, List.length_cons, Nat.add_assoc, Nat.add_comm 1]
  | case3 i count group raw rest e hread script ih =>
    rw [List.cons_append, ofTokensFrom]
    simp only [hread, ih h, List.length_cons, Nat.add_assoc, Nat.add_comm 1]
    rfl
  | case4 i count group raw rest t hread hempty script ih =>
    rw [List.cons_append, ofTokensFrom]
    simp only [hread, hempty, if_true, ih h, List.length_cons, Nat.add_assoc, Nat.add_comm 1]
    rfl
  | case5 i count group raw rest t hread hempty script ih =>
    have htail := ih fun s hs => h s (List.mem_cons_of_mem _ hs)
    rw [List.cons_append, ofTokensFrom]
    simp only [hread, hempty, Bool.false_eq_true, if_false, htail, List.length_cons,
      Nat.add_assoc, Nat.add_comm 1]
    rfl

/-! ## Both together -/

/-- Every segment of a text has a tag: no words are left open at its end. -/
def LeavesNoGroup (s : List Char) : Prop := ∀ g ∈ (read s).segments, g.isTagged = true

instance (s : List Char) : Decidable (LeavesNoGroup s) :=
  inferInstanceAs (Decidable (∀ g ∈ (read s).segments, g.isTagged = true))

theorem scan_append_of_leavesNoGroup {a : List Char} (hclosed : Tag.IsClosed a)
    (hgroup : LeavesNoGroup a) (b : List Char) :
    Token.scan (a ++ b) = Token.scan a ++ Token.scan b :=
  Token.scan_append hclosed (endsClosed_of_isTagged hgroup).1 b

/-- A text behind a closed one is read on its own; its segments and tokens
count on. -/
theorem read_append {a : List Char} (hclosed : Tag.IsClosed a) (hgroup : LeavesNoGroup a)
    (b : List Char) :
    read (a ++ b) =
      ⟨(read a).segments ++ (read b).segments.map (Segment.renumbered (read a).segments.length),
        (read a).diagnostics ++
          (read b).diagnostics.map (Diagnostic.shifted (Token.scan a).length)⟩ := by
  rw [read, scan_append_of_leavesNoGroup hclosed hgroup, ofTokens, ofTokensFrom_append hgroup]
  dsimp only
  rw [ofTokensFrom_add]
  rfl

end Script

end KineticText
