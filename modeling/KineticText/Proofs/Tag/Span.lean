import KineticText.Proofs.Tag.Bracket
import Mathlib.Tactic.Common

/-!
# Where bracketed texts stand

`spans` finds the bracketed texts of a text.  `Covered` says that a character
belongs to one of them.  What is covered can be read off the front of the text:
a text without an open bracket covers nothing (`covered_append_iff`), and a
bracketed text covers itself (`covered_bracketed_iff`).
-/

namespace KineticText.Tag

/-! ## From the front -/

/-- The same bracketed text `n` characters further on. -/
def Span.shifted (n : ℕ) (span : Span) : Span := ⟨n + span.start, n + span.stop, span.raw⟩

section Front

variable {c : Char} {inner rest tail : List Char}

@[simp] theorem spansFrom_nil (offset : ℕ) : spansFrom offset [] = [] := by
  rw [spansFrom.eq_def]

theorem spansFrom_cons_of_close (offset : ℕ) (h : untilClose? rest = some (inner, tail)) :
    spansFrom offset ('<' :: rest) =
      ⟨offset, offset + inner.length + 2, '<' :: (inner ++ ['>'])⟩ ::
        spansFrom (offset + inner.length + 2) tail := by
  rw [spansFrom.eq_def]
  simp only [if_true]
  split
  · rename_i heq
    rw [h, Option.some.injEq, Prod.mk.injEq] at heq
    obtain ⟨rfl, rfl⟩ := heq
    rfl
  · rename_i heq
    rw [h] at heq
    cases heq

theorem spansFrom_cons_of_skip (offset : ℕ) (h : c = '<' → untilClose? rest = none) :
    spansFrom offset (c :: rest) = spansFrom (offset + 1) rest := by
  rw [spansFrom.eq_def]
  simp only
  split_ifs with hopen
  · split
    · rename_i heq
      rw [h hopen] at heq
      cases heq
    · rfl
  · rfl

theorem spansFrom_add (n offset : ℕ) (s : List Char) :
    spansFrom (n + offset) s = (spansFrom offset s).map (Span.shifted n) := by
  fun_induction spansFrom offset s with
  | case1 => simp
  | case2 offset rest inner tail hclose stop ih =>
    have hstop : n + offset + inner.length + 2 = n + stop := by
      simp only [stop]
      omega
    rw [spansFrom_cons_of_close _ hclose, hstop, List.map_cons, ← ih]
    rfl
  | case3 offset rest hnone ih => rw [spansFrom_cons_of_skip _ fun _ => hnone, ← ih, Nat.add_assoc]
  | case4 offset c rest hc ih => rw [spansFrom_cons_of_skip _ (absurd · hc), ← ih, Nat.add_assoc]

@[simp] theorem spans_nil : spans [] = [] := spansFrom_nil 0

theorem spansFrom_eq_map (n : ℕ) (s : List Char) :
    spansFrom n s = (spans s).map (Span.shifted n) := spansFrom_add n 0 s

theorem spans_cons_of_skip (h : c = '<' → untilClose? rest = none) :
    spans (c :: rest) = (spans rest).map (Span.shifted 1) := by
  rw [spans, spansFrom_cons_of_skip 0 h, spansFrom_eq_map]

theorem spans_bracketed (h : '>' ∉ inner) (rest : List Char) :
    spans ('<' :: (inner ++ ['>']) ++ rest) =
      ⟨0, ('<' :: (inner ++ ['>'])).length, '<' :: (inner ++ ['>'])⟩ ::
        (spans rest).map (Span.shifted ('<' :: (inner ++ ['>'])).length) := by
  have hclose : untilClose? (inner ++ ['>'] ++ rest) = some (inner, rest) := by
    rw [List.append_assoc, List.singleton_append, untilClose?_append h]
  rw [List.cons_append, spans, spansFrom_cons_of_close 0 hclose, spansFrom_eq_map]
  simp

theorem Span.shifted_zero (span : Span) : span.shifted 0 = span := by
  simp only [Span.shifted, Nat.zero_add]

theorem Span.shifted_shifted (m n : ℕ) (span : Span) :
    (span.shifted n).shifted m = span.shifted (m + n) := by
  simp only [Span.shifted, Nat.add_assoc]

theorem spans_append {front : List Char} (h : '<' ∉ front) (rest : List Char) :
    spans (front ++ rest) = (spans rest).map (Span.shifted front.length) := by
  induction front with
  | nil => exact (List.map_id'' Span.shifted_zero _).symm
  | cons c front ih =>
    rw [List.mem_cons, not_or] at h
    rw [List.cons_append, spans_cons_of_skip (absurd · (Ne.symm h.1)), ih h.2, List.map_map,
      List.length_cons, Nat.add_comm front.length]
    exact List.map_congr_left fun span _ => span.shifted_shifted ..

end Front

/-! ## Covered characters -/

/-- The character at a place belongs to a bracketed text. -/
def Covered (s : List Char) (k : ℕ) : Prop :=
  ∃ span ∈ spans s, span.start ≤ k ∧ k < span.stop

instance (s : List Char) (k : ℕ) : Decidable (Covered s k) :=
  inferInstanceAs (Decidable (∃ span ∈ spans s, span.start ≤ k ∧ k < span.stop))

theorem covered_iff_of_spansFrom {s : List Char} {n k : ℕ} :
    (∃ span ∈ spansFrom n s, span.start ≤ k ∧ k < span.stop) ↔ n ≤ k ∧ Covered s (k - n) := by
  rw [← Nat.add_zero n, spansFrom_add, Nat.add_zero]
  constructor
  · intro h
    obtain ⟨shifted, hmem, hstart, hstop⟩ := h
    obtain ⟨span, hspan, rfl⟩ := List.mem_map.1 hmem
    simp only [Span.shifted] at hstart hstop
    exact ⟨by omega, span, hspan, by omega, by omega⟩
  · intro h
    obtain ⟨hn, span, hspan, hstart, hstop⟩ := h
    refine ⟨span.shifted n, List.mem_map_of_mem hspan, ?_, ?_⟩
    · show n + span.start ≤ k
      omega
    · show k < n + span.stop
      omega

@[simp] theorem not_covered_nil (k : ℕ) : ¬Covered [] k := by
  simp [Covered, spans]

/-- A character that opens no bracketed text is in none. -/
theorem covered_cons_iff {c : Char} {rest : List Char} (h : c = '<' → untilClose? rest = none)
    {k : ℕ} : Covered (c :: rest) k ↔ 1 ≤ k ∧ Covered rest (k - 1) := by
  rw [Covered, spans, spansFrom_cons_of_skip 0 h]
  exact covered_iff_of_spansFrom

theorem covered_append_iff {front rest : List Char} (h : '<' ∉ front) {k : ℕ} :
    Covered (front ++ rest) k ↔ front.length ≤ k ∧ Covered rest (k - front.length) := by
  induction front generalizing k with
  | nil => simp
  | cons c front ih =>
    rw [List.mem_cons, not_or] at h
    rw [List.cons_append, covered_cons_iff (absurd · (Ne.symm h.1)), ih h.2, List.length_cons,
      Nat.sub_sub, Nat.add_comm 1, ← and_assoc]
    refine and_congr_left fun _ => ?_
    omega

theorem covered_bracketed_iff {inner tail : List Char} (h : '>' ∉ inner) {k : ℕ} :
    Covered ('<' :: (inner ++ ['>']) ++ tail) k ↔
      k < inner.length + 2 ∨ inner.length + 2 ≤ k ∧ Covered tail (k - (inner.length + 2)) := by
  have hclose : untilClose? (inner ++ ['>'] ++ tail) = some (inner, tail) := by
    rw [List.append_assoc, List.singleton_append, untilClose?_append h]
  rw [List.cons_append, Covered, spans, spansFrom_cons_of_close 0 hclose, Nat.zero_add,
    ← covered_iff_of_spansFrom]
  simp

end KineticText.Tag
