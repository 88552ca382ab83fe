import KineticText.Proofs.Script.Conservation
import KineticText.Proofs.Script.Partition

/-!
# Reported tags are inert

A tag that the reader reports, because it is malformed or because no text
stands in front of it, does nothing else: with a space in its place, and in the
place of all others like it at once, the text has the same segments, and nothing
is reported about it (`read_withoutReported`).

There are four groups: bracketed texts replaced by spaces, the tokens that are
left of such a text, what the reader makes of them, and the assembly.
-/

namespace KineticText

/-! ## Spaces in place of bracketed texts -/

namespace Tag

/-- What a character becomes: a space if a bracketed text begins with it, nothing
if it stands further on in one. -/
def replacement (spans : List Span) (k : ℕ) (c : Char) : List Char :=
  if ∃ span ∈ spans, span.start = k then [' ']
  else if ∃ span ∈ spans, span.start < k ∧ k < span.stop then []
  else [c]

/-- A space in the place of each of the bracketed texts. -/
def blanked (spans : List Span) (s : List Char) : List Char := Text.substitute (replacement spans) s

section Blanked

variable {spans : List Span} {raw rest s : List Char} {c : Char} {k n : ℕ}

theorem exists_mem_shifted_iff {P : Span → Prop} :
    (∃ span ∈ spans.map (Span.shifted n), P span) ↔ ∃ span ∈ spans, P (span.shifted n) := by
  simp only [List.mem_map, exists_exists_and_eq_and]

theorem replacement_shifted (spans : List Span) (n k : ℕ) (c : Char) :
    replacement (spans.map (Span.shifted n)) (n + k) c = replacement spans k c := by
  simp only [replacement, exists_mem_shifted_iff, Span.shifted, Nat.add_left_cancel_iff,
    Nat.add_lt_add_iff_left]

theorem replacement_of_lt (hk : k < n) (c : Char) :
    replacement (spans.map (Span.shifted n)) k c = [c] := by
  rw [replacement, if_neg, if_neg]
  · rw [exists_mem_shifted_iff]
    rintro ⟨span, -, hstart, -⟩
    simp only [Span.shifted] at hstart
    omega
  · rw [exists_mem_shifted_iff]
    rintro ⟨span, -, hstart⟩
    simp only [Span.shifted] at hstart
    omega

theorem replacement_inside (hpos : 0 < k) (hk : k < n) (c : Char) :
    replacement (⟨0, n, raw⟩ :: spans.map (Span.shifted n)) k c = [] := by
  rw [replacement, if_neg, if_pos ⟨_, List.mem_cons_self, hpos, hk⟩]
  rw [List.exists_mem_cons_iff, exists_mem_shifted_iff]
  rintro (hstart | ⟨span, -, hstart⟩)
  · exact hpos.ne hstart
  · simp only [Span.shifted] at hstart
    omega

theorem replacement_behind (hn : 0 < n) (k : ℕ) (c : Char) :
    replacement (⟨0, n, raw⟩ :: spans.map (Span.shifted n)) (n + k) c = replacement spans k c := by
  have hstart : ¬0 = n + k := by omega
  have hstop : ¬(0 < n + k ∧ n + k < n) := by omega
  rw [← replacement_shifted spans n, replacement, replacement]
  simp only [List.exists_mem_cons_iff, hstart, hstop, false_or]

/-- What stands in front of the bracketed texts stays. -/
theorem blanked_append (spans : List Span) (front rest : List Char) :
    blanked (spans.map (Span.shifted front.length)) (front ++ rest) =
      front ++ blanked spans rest := by
  have hfront : Text.substitute (replacement (spans.map (Span.shifted front.length))) front =
      front :=
    Text.substitute_eq_self fun k c hc => replacement_of_lt (List.getElem?_eq_some_iff.1 hc).1 c
  rw [blanked, Text.substitute_append, hfront, blanked]
  congr 1
  exact Text.substitute_congr fun k c _ => replacement_shifted ..

theorem blanked_bracketed (spans : List Span) (hraw : raw ≠ []) (rest : List Char) :
    blanked (⟨0, raw.length, raw⟩ :: spans.map (Span.shifted raw.length)) (raw ++ rest) =
      ' ' :: blanked spans rest := by
  have hfront : Text.substitute
      (replacement (⟨0, raw.length, raw⟩ :: spans.map (Span.shifted raw.length))) raw = [' '] := by
    obtain ⟨c, tail, rfl⟩ := List.exists_cons_of_ne_nil hraw
    rw [Text.substitute_cons, replacement, if_pos ⟨_, List.mem_cons_self, rfl⟩,
      Text.substitute_eq_nil, List.append_nil]
    intro k d hd
    have hk := (List.getElem?_eq_some_iff.1 hd).1
    refine replacement_inside (by omega) ?_ d
    rw [List.length_cons]
    omega
  rw [blanked, Text.substitute_append, hfront, blanked, List.singleton_append]
  congr 1
  exact Text.substitute_congr fun k c _ => replacement_behind (List.length_pos_iff.2 hraw) k c

theorem mem_replacement {d : Char} (h : d ∈ replacement spans k c) : d = ' ' ∨ d = c := by
  rw [replacement] at h
  split_ifs at h
  · exact .inl (List.mem_singleton.1 h)
  · cases h
  · exact .inr (List.mem_singleton.1 h)

theorem mem_of_mem_blanked (h : c ∈ blanked spans s) : c = ' ' ∨ c ∈ s := by
  obtain ⟨k, d, hd, hc⟩ := Text.mem_substitute_iff.1 h
  refine (mem_replacement hc).imp_right ?_
  rintro rfl
  exact List.mem_of_getElem? hd

theorem mem_head?_of_blanked (h : c ∈ (blanked spans s).head?) : c = ' ' ∨ c ∈ s.head? := by
  cases s with
  | nil => cases h
  | cons d s =>
    have hfirst : replacement spans 0 d = [' '] ∨ replacement spans 0 d = [d] := by
      simp only [replacement, Nat.not_lt_zero, false_and, and_false, exists_false, if_false]
      exact ite_eq_or_eq ..
    rw [blanked, Text.substitute_cons] at h
    rcases hfirst with hspace | hkept
    · rw [hspace] at h
      exact .inl (by simpa using h.symm)
    · rw [hkept] at h
      exact .inr h

end Blanked

end Tag

/-! ## The tokens that are left -/

namespace Token

/-- A token is no bracketed text of a kind. -/
def isKept (R : Tag.Span → Bool) (p : ℕ × Token) : Bool := (span? p).all fun span => !R span

variable {R : Tag.Span → Bool} {ps : List (ℕ × Token)} {s : List Char}

theorem isKept_tag (R : Tag.Span → Bool) (i : ℕ) (raw : List Char) :
    isKept R (i, tag raw) = !R ⟨i, i + raw.length, raw⟩ := rfl

theorem map_filter_further (R : Tag.Span → Bool) (n : ℕ) (ps : List (ℕ × Token)) :
    ((ps.map (further n)).filter (isKept R)).map Prod.snd =
      (ps.filter (isKept (R ∘ Tag.Span.shifted n))).map Prod.snd := by
  have hkept : isKept R ∘ further n = isKept (R ∘ Tag.Span.shifted n) := by
    funext p
    rw [Function.comp_apply, isKept, span?_further, isKept, Option.all_map]
    rfl
  rw [List.filter_map, hkept, map_snd_further]

/-- With spaces in the place of some bracketed texts the other tokens are left. -/
theorem scan_blanked (R : Tag.Span → Bool) (s : List Char) :
    scan (Tag.blanked ((Tag.spans s).filter R) s) =
      ((placed s).filter (isKept R)).map Prod.snd := by
  induction s using scan_induction generalizing R with
  | nil => simp [Tag.blanked]
  | word w rest hw hrest ih =>
    have hhead : ∀ c ∈ (Tag.blanked ((Tag.spans rest).filter (R ∘ Tag.Span.shifted w.length))
        rest).head?, isWordChar c = false := by
      intro c hc
      rcases Tag.mem_head?_of_blanked hc with rfl | hc
      · rfl
      · exact hrest c hc
    rw [Tag.spans_append (open_not_mem_of_isWord hw), List.filter_map, Tag.blanked_append,
      scan_append_of_word hw hhead, ih, placed_append_of_word hw hrest,
      List.filter_cons_of_pos (by rfl), List.map_cons, map_filter_further]
  | bracketed inner rest hinner ih =>
    rw [Tag.spans_bracketed hinner, placed_append_of_bracketed hinner]
    cases hR : R ⟨0, ('<' :: (inner ++ ['>'])).length, '<' :: (inner ++ ['>'])⟩ with
    | true =>
      have hdropped : ¬isKept R (0, tag ('<' :: (inner ++ ['>']))) = true := by
        rw [isKept_tag, Nat.zero_add, hR]
        exact Bool.false_ne_true
      rw [List.filter_cons_of_pos hR, List.filter_map, Tag.blanked_bracketed _ (by simp),
        scan_cons_of_skip (by rfl) (by simp), ih, List.filter_cons_of_neg hdropped,
        map_filter_further]
    | false =>
      have hkept : isKept R (0, tag ('<' :: (inner ++ ['>']))) = true := by
        rw [isKept_tag, Nat.zero_add, hR]
        rfl
      rw [List.filter_cons_of_neg (hR ▸ Bool.false_ne_true), List.filter_map, Tag.blanked_append,
        scan_append_of_bracketed hinner, ih, List.filter_cons_of_pos hkept, List.map_cons,
        map_filter_further]
  | skip c rest hc hopen ih =>
    have hclosed : c = '<' →
        '>' ∉ Tag.blanked ((Tag.spans rest).filter (R ∘ Tag.Span.shifted 1)) rest := by
      intro heq hmem
      rcases Tag.mem_of_mem_blanked hmem with hspace | hmem
      · cases hspace
      · exact hopen heq hmem
    have hfront := Tag.blanked_append ((Tag.spans rest).filter (R ∘ Tag.Span.shifted 1)) [c] rest
    rw [List.length_singleton, List.singleton_append, List.singleton_append] at hfront
    rw [Tag.spans_cons_of_skip fun h => Tag.untilClose?_eq_none_iff.2 (hopen h), List.filter_map,
      hfront, scan_cons_of_skip hc fun h => Tag.untilClose?_eq_none_iff.2 (hclosed h), ih,
      placed_cons_of_skip hc hopen, map_filter_further]

end Token

/-! ## The reader -/

namespace Script

/-- Something is reported about the token at a place. -/
def Reports (script : Script) (i : ℕ) : Prop :=
  ∃ d ∈ script.diagnostics, d.tokenIndex = some (i : ℤ)

instance (script : Script) (i : ℕ) : Decidable (script.Reports i) :=
  inferInstanceAs (Decidable (∃ d ∈ script.diagnostics, d.tokenIndex = some (i : ℤ)))

theorem reports_cons_iff {script : Script} {segments : List Segment} {d : Diagnostic} {i j : ℕ}
    (hd : d.tokenIndex = some (i : ℤ)) :
    Reports ⟨segments, d :: script.diagnostics⟩ j ↔ i = j ∨ script.Reports j := by
  simp [Reports, hd]

/-- A token further on is reported by the script behind the first token. -/
theorem reports_cons_further_iff {script : Script} {segments : List Segment} {d : Diagnostic}
    {i : ℕ} (hd : d.tokenIndex = some (i : ℤ)) (k : ℕ) :
    Reports ⟨segments, d :: script.diagnostics⟩ (i + 1 + k) ↔ script.Reports (i + 1 + k) :=
  (reports_cons_iff hd).trans (or_iff_right (by omega))

/-- A tag is reported and does nothing else, or it closes a segment. -/
theorem ofTokensFrom_tag_cases (i count : ℕ) (group : List (List Char)) (raw : List Char) :
    (∃ d : Diagnostic, d.tokenIndex = some (i : ℤ) ∧ ∀ rest,
      ofTokensFrom i count group (.tag raw :: rest) =
        ⟨(ofTokensFrom (i + 1) count group rest).segments,
          d :: (ofTokensFrom (i + 1) count group rest).diagnostics⟩) ∨
    ∃ s : Segment, ∀ j rest, ofTokensFrom j count group (.tag raw :: rest) =
      ⟨s :: (ofTokensFrom (j + 1) (count + 1) [] rest).segments,
        (ofTokensFrom (j + 1) (count + 1) [] rest).diagnostics⟩ := by
  cases hread : Tag.read raw with
  | error e => exact .inl ⟨.malformedTag raw i e, rfl, fun rest => by
      simp only [ofTokensFrom, hread]⟩
  | ok t =>
    cases hempty : group.isEmpty with
    | true => exact .inl ⟨.orphanTag raw i, rfl, fun rest => by
        simp only [ofTokensFrom, hread, hempty, if_true]⟩
    | false => exact .inr ⟨segmentOf group (some t) count, fun j rest => by
        simp only [ofTokensFrom, hread, hempty, Bool.false_eq_true, if_false]⟩

/-- Only tokens that are read are reported. -/
theorem le_of_reports {i j count : ℕ} {group : List (List Char)} {tokens : List Token}
    (h : (ofTokensFrom i count group tokens).Reports j) : i ≤ j := by
  induction tokens generalizing i count group with
  | nil => simp [ofTokensFrom, Reports] at h
  | cons t rest ih =>
    cases t with
    | word w =>
      rw [ofTokensFrom] at h
      exact (Nat.le_succ i).trans (ih h)
    | tag raw =>
      rcases ofTokensFrom_tag_cases i count group raw with ⟨d, hd, hstep⟩ | ⟨s, hstep⟩
      · rw [hstep] at h
        rcases (reports_cons_iff hd).1 h with rfl | h
        · exact le_rfl
        · exact (Nat.le_succ i).trans (ih h)
      · rw [hstep] at h
        exact (Nat.le_succ i).trans (ih h)

/-- Without the tokens that something is reported about, the rest is read in
the same way, and nothing is reported. -/
theorem ofTokensFrom_filter {ps : List (ℕ × Token)} {keep : ℕ × Token → Bool} {i count : ℕ}
    {group : List (List Char)}
    (h : ∀ k p, ps[k]? = some p → (keep p = false ↔
      (ofTokensFrom i count group (ps.map Prod.snd)).Reports (i + k))) (j : ℕ) :
    ofTokensFrom j count group ((ps.filter keep).map Prod.snd) =
      ⟨(ofTokensFrom i count group (ps.map Prod.snd)).segments, []⟩ := by
  induction ps generalizing i j count group with
  | nil => rfl
  | cons p ps ih =>
    obtain ⟨place, t⟩ := p
    have hfirst := h 0 _ rfl
    have hrest (k : ℕ) (q : ℕ × Token) (hq : ps[k]? = some q) := h (k + 1) q hq
    simp only [Nat.add_zero, List.map_cons] at hfirst
    simp only [← Nat.add_right_comm _ 1, ← Nat.add_assoc, List.map_cons] at hrest
    cases t with
    | word w =>
      rw [ofTokensFrom] at hfirst hrest
      have hkeep : keep (place, .word w) = true := by
        by_contra hdropped
        exact Nat.lt_irrefl i (le_of_reports (hfirst.1 (eq_false_of_ne_true hdropped)))
      rw [List.filter_cons_of_pos hkeep, List.map_cons, List.map_cons, ofTokensFrom, ofTokensFrom]
      exact ih hrest (j + 1)
    | tag raw =>
      rcases ofTokensFrom_tag_cases i count group raw with ⟨d, hd, hstep⟩ | ⟨s, hstep⟩
      · rw [hstep] at hfirst
        simp only [hstep] at hrest
        have hdropped := ne_true_of_eq_false (hfirst.2 ((reports_cons_iff hd).2 (.inl rfl)))
        rw [List.filter_cons_of_neg hdropped, List.map_cons, hstep]
        exact ih (fun k q hq => (hrest k q hq).trans (reports_cons_further_iff hd k)) j
      · rw [hstep] at hfirst
        simp only [hstep] at hrest
        have hkeep : keep (place, .tag raw) = true := by
          by_contra hdropped
          have hreports : (ofTokensFrom (i + 1) (count + 1) [] (ps.map Prod.snd)).Reports i :=
            hfirst.1 (eq_false_of_ne_true hdropped)
          exact Nat.lt_irrefl i (le_of_reports hreports)
        rw [List.filter_cons_of_pos hkeep, List.map_cons, List.map_cons, hstep, hstep,
          ih hrest (j + 1)]

/-! ## The assembly -/

/-- Something is reported about the tag that stands at the place of a bracketed
text. -/
def IsReported (s : List Char) (span : Tag.Span) : Prop :=
  ∃ i < (Token.placed s).length,
    (Token.placed s)[i]? = some (span.start, .tag span.raw) ∧ (read s).Reports i

instance (s : List Char) (span : Tag.Span) : Decidable (IsReported s span) :=
  inferInstanceAs (Decidable (∃ i < (Token.placed s).length,
    (Token.placed s)[i]? = some (span.start, .tag span.raw) ∧ (read s).Reports i))

/-- The text with a space in the place of each tag that is reported. -/
def withoutReported (s : List Char) : List Char :=
  Tag.blanked ((Tag.spans s).filter fun span => IsReported s span) s

/-- Only tags are reported. -/
theorem exists_tag_of_reports {s : List Char} {i : ℕ} (h : (read s).Reports i) :
    ∃ raw, (Token.scan s)[i]? = some (.tag raw) := by
  obtain ⟨d, hd, hindex⟩ := h
  obtain ⟨j, hj⟩ := (diagnostics_ofTokensFrom (.start _)).exists_of_mem hd
  obtain ⟨raw, htoken, -, hplace⟩ := hj.exists_tag
  rw [hindex, Option.some.injEq, Int.natCast_inj] at hplace
  exact ⟨raw, hplace ▸ htoken⟩

/-- The tokens that are not kept are those that something is reported about. -/
theorem isKept_eq_false_iff {s : List Char} {k : ℕ} {p : ℕ × Token}
    (hp : (Token.placed s)[k]? = some p) :
    Token.isKept (fun span => IsReported s span) p = false ↔ (read s).Reports k := by
  obtain ⟨place, t⟩ := p
  cases t with
  | word w =>
    refine iff_of_false Bool.false_ne_true.symm fun hreports => ?_
    obtain ⟨raw, htag⟩ := exists_tag_of_reports hreports
    rw [← Token.map_snd_placed, List.getElem?_map, hp] at htag
    cases htag
  | tag raw =>
    rw [Token.isKept_tag, Bool.not_eq_false', decide_eq_true_iff]
    constructor
    · intro h
      obtain ⟨i, hi, hplace, hreports⟩ := h
      obtain rfl : i = k := (List.getElem?_inj hi (Token.nodup_placed s)).1 (hplace.trans hp.symm)
      exact hreports
    · intro hreports
      exact ⟨k, (List.getElem?_eq_some_iff.1 hp).1, hp, hreports⟩

/-- Where reported tags are replaced by spaces, the segments stay the same and
there is nothing left to report. -/
theorem read_withoutReported (s : List Char) :
    read (withoutReported s) = ⟨(read s).segments, []⟩ := by
  rw [read, withoutReported, Token.scan_blanked, ofTokens, ofTokensFrom_filter,
    Token.map_snd_placed]
  · rfl
  · intro k p hp
    rw [Token.map_snd_placed, Nat.zero_add]
    exact isKept_eq_false_iff hp

end Script

end KineticText
