import Mathlib.Computability.RegularExpressions
import KineticText.Tag.Reading
import KineticText.Proofs.Number.Written
import KineticText.Proofs.Text.Words

/-!
# Numbers in tags

The numbers of a tag are written without sign and power of ten.  Their form is
the regular expression `[0-9]*[.]?[0-9]+` (`numberPattern`), which could be
matched in several ways, and their value is read off their digits
(`numberValue`).  The reader scans them greedily.

There are three groups.

* The form of a number.  `mem_numberPattern_iff` splits what the pattern
  matches into the digits before and behind the point.
* Scanning.  `scan?_text` and `eq_of_scan?_eq_some` say that the greedy scan
  finds exactly the numbers of that form.
* Writing.  `secondsText_eq` says that the text of a decimal is such a number
  and stands for the same value.
-/

namespace KineticText

/-! ## The form of a number -/

open RegularExpression in
/-- `[0-9]` -/
def digitPattern : RegularExpression Char :=
  char '0' + char '1' + char '2' + char '3' + char '4' +
    char '5' + char '6' + char '7' + char '8' + char '9'

open RegularExpression in
/-- `[0-9]*[.]?[0-9]+` -/
def numberPattern : RegularExpression Char :=
  star digitPattern * (1 + char '.') * (digitPattern * star digitPattern)

/-- The exact number that digits with at most one point among them spell. -/
def numberValue (n : List Char) : ℚ :=
  Nat.ofDigitChars 10 (n.filter (· ≠ '.')) 0 / 10 ^ (n.dropWhile (· ≠ '.')).tail.length

theorem isDigit_iff {c : Char} : c.isDigit = true ↔
    c = '0' ∨ c = '1' ∨ c = '2' ∨ c = '3' ∨ c = '4' ∨
      c = '5' ∨ c = '6' ∨ c = '7' ∨ c = '8' ∨ c = '9' := by
  constructor
  · intro h
    simp only [Char.isDigit, Bool.and_eq_true, decide_eq_true_eq, ge_iff_le,
      UInt32.le_iff_toNat_le] at h
    obtain ⟨hlow, hhigh⟩ : 48 ≤ c.toNat ∧ c.toNat ≤ 57 := h
    rw [← Char.ofNat_toNat c]
    interval_cases c.toNat <;> decide
  · rintro (rfl | rfl | rfl | rfl | rfl | rfl | rfl | rfl | rfl | rfl) <;> rfl

theorem mem_char_iff {a : Char} {s : List Char} :
    s ∈ (RegularExpression.char a).matches' ↔ s = [a] := Iff.rfl

theorem mem_digitPattern_iff {s : List Char} :
    s ∈ digitPattern.matches' ↔ ∃ c, c.isDigit = true ∧ s = [c] := by
  simp only [digitPattern, RegularExpression.matches'_add, Language.mem_add, mem_char_iff,
    isDigit_iff]
  constructor
  · rintro (((((((((rfl | rfl) | rfl) | rfl) | rfl) | rfl) | rfl) | rfl) | rfl) | rfl) <;> simp
  · intro hdigit
    obtain ⟨c, hc, rfl⟩ := hdigit
    rcases hc with rfl | rfl | rfl | rfl | rfl | rfl | rfl | rfl | rfl | rfl <;> simp

theorem mem_star_digitPattern_iff {s : List Char} :
    s ∈ digitPattern.star.matches' ↔ ∀ c ∈ s, c.isDigit = true := by
  rw [RegularExpression.matches'_star, Language.mem_kstar]
  constructor
  · rintro ⟨parts, rfl, hparts⟩ c hc
    obtain ⟨part, hpart, hc⟩ := List.mem_flatten.1 hc
    obtain ⟨d, hd, rfl⟩ := mem_digitPattern_iff.1 (hparts part hpart)
    rwa [List.mem_singleton.1 hc]
  · intro h
    refine ⟨s.map ([·]), by rw [← List.flatMap_def, List.flatMap_singleton'], fun part hpart => ?_⟩
    obtain ⟨c, hc, rfl⟩ := List.mem_map.1 hpart
    exact mem_digitPattern_iff.2 ⟨c, h c hc, rfl⟩

/-- A numeral holds digits only, and at least one. -/
structure UnsignedNumeral.IsValid (n : UnsignedNumeral) : Prop where
  whole_isDigit : ∀ c ∈ n.whole, c.isDigit = true
  fraction_isDigit : ∀ c ∈ n.fraction, c.isDigit = true
  whole_ne_nil : n.fraction = [] → n.whole ≠ []

theorem UnsignedNumeral.text_of_fraction_nil {n : UnsignedNumeral} (h : n.fraction = []) :
    n.text = n.whole := by
  simp [text, h]

theorem UnsignedNumeral.text_of_fraction_ne_nil {n : UnsignedNumeral} (h : n.fraction ≠ []) :
    n.text = n.whole ++ '.' :: n.fraction := by
  simp [text, h]

theorem UnsignedNumeral.mem_text {n : UnsignedNumeral} (hn : n.IsValid) {c : Char}
    (hc : c ∈ n.text) : c.isDigit = true ∨ c = '.' := by
  have hmem : c ∈ n.whole ∨ c = '.' ∨ c ∈ n.fraction := by
    unfold text at hc
    split_ifs at hc
    · exact .inl hc
    · simpa using hc
  rcases hmem with hwhole | hpoint | hfraction
  · exact .inl (hn.whole_isDigit c hwhole)
  · exact .inr hpoint
  · exact .inl (hn.fraction_isDigit c hfraction)

theorem UnsignedNumeral.text_ne_nil {n : UnsignedNumeral} (hn : n.IsValid) : n.text ≠ [] := by
  by_cases hnil : n.fraction = []
  · rw [text_of_fraction_nil hnil]
    exact hn.whole_ne_nil hnil
  · simp [text_of_fraction_ne_nil hnil]

/-- The pattern of a number matches the texts of numerals. -/
theorem mem_numberPattern_iff {s : List Char} :
    s ∈ numberPattern.matches' ↔ ∃ n : UnsignedNumeral, n.IsValid ∧ s = n.text := by
  simp only [numberPattern, RegularExpression.matches'_mul, RegularExpression.matches'_add,
    RegularExpression.matches'_epsilon, Language.mem_mul, Language.mem_add, Language.mem_one,
    mem_char_iff]
  constructor
  · intro hmatch
    obtain ⟨_, ⟨front, hfront, point, hpoint, rfl⟩, _, ⟨first, hfirst, more, hmore, rfl⟩, rfl⟩ := hmatch
    rw [mem_star_digitPattern_iff] at hfront hmore
    obtain ⟨d, hd, rfl⟩ := mem_digitPattern_iff.1 hfirst
    rcases hpoint with rfl | rfl
    · -- Without a point all digits are in front.
      refine ⟨⟨front ++ d :: more, []⟩, ⟨?_, by simp, by simp⟩, by simp [UnsignedNumeral.text]⟩
      simp only [List.mem_append, List.mem_cons]
      rintro c (hc | rfl | hc)
      · exact hfront c hc
      · exact hd
      · exact hmore c hc
    · refine ⟨⟨front, d :: more⟩, ⟨hfront, ?_, by simp⟩, by simp [UnsignedNumeral.text]⟩
      simp only [List.mem_cons]
      rintro c (rfl | hc)
      · exact hd
      · exact hmore c hc
  · intro htext
    obtain ⟨n, hn, rfl⟩ := htext
    by_cases hfraction : n.fraction = []
    · rw [UnsignedNumeral.text_of_fraction_nil hfraction]
      obtain ⟨d, more, hwhole⟩ := List.exists_cons_of_ne_nil (hn.whole_ne_nil hfraction)
      have hdigits := hn.whole_isDigit
      rw [hwhole, List.forall_mem_cons] at hdigits
      exact ⟨[], ⟨[], mem_star_digitPattern_iff.2 (by simp), [], .inl rfl, rfl⟩, n.whole,
        ⟨[d], mem_digitPattern_iff.2 ⟨d, hdigits.1, rfl⟩, more,
          mem_star_digitPattern_iff.2 hdigits.2, by simp [hwhole]⟩, rfl⟩
    · rw [UnsignedNumeral.text_of_fraction_ne_nil hfraction]
      obtain ⟨d, more, htail⟩ := List.exists_cons_of_ne_nil hfraction
      have hdigits := hn.fraction_isDigit
      rw [htail, List.forall_mem_cons] at hdigits
      exact ⟨n.whole ++ ['.'], ⟨n.whole, mem_star_digitPattern_iff.2 hn.whole_isDigit, ['.'],
        .inr rfl, rfl⟩, n.fraction, ⟨[d], mem_digitPattern_iff.2 ⟨d, hdigits.1, rfl⟩, more,
          mem_star_digitPattern_iff.2 hdigits.2, by simp [htail]⟩, by simp⟩

theorem ne_point_of_isDigit {c : Char} (h : c.isDigit = true) : c ≠ '.' := by
  rintro rfl
  exact absurd h (by decide)

/-- The value of a numeral is that of its digits, the point counted from the
end. -/
theorem UnsignedNumeral.value_decimal (n : UnsignedNumeral) :
    n.decimal.value = Nat.ofDigitChars 10 (n.whole ++ n.fraction) 0 / 10 ^ n.fraction.length := by
  rw [Decimal.value_of_nonneg rfl, decimal, zpow_neg, zpow_natCast, div_eq_mul_inv]

theorem UnsignedNumeral.numberValue_text {n : UnsignedNumeral} (hn : n.IsValid) :
    numberValue n.text = n.decimal.value := by
  have hwhole : ∀ c ∈ n.whole, decide (c ≠ '.') = true := fun c hc =>
    decide_eq_true (ne_point_of_isDigit (hn.whole_isDigit c hc))
  have hfraction : ∀ c ∈ n.fraction, decide (c ≠ '.') = true := fun c hc =>
    decide_eq_true (ne_point_of_isDigit (hn.fraction_isDigit c hc))
  rw [value_decimal]
  by_cases hnil : n.fraction = []
  · have hdrop : n.whole.dropWhile (· ≠ '.') = [] := List.dropWhile_eq_nil_iff.2 hwhole
    rw [text_of_fraction_nil hnil, numberValue, List.filter_eq_self.2 hwhole, hdrop, hnil]
    simp
  · have hdrop : (n.whole ++ '.' :: n.fraction).dropWhile (· ≠ '.') = '.' :: n.fraction :=
      dropWhile_run hwhole (by simp)
    rw [text_of_fraction_ne_nil hnil, numberValue, hdrop, List.filter_append,
      List.filter_cons_of_neg (by simp), List.filter_eq_self.2 hwhole,
      List.filter_eq_self.2 hfraction, List.tail_cons]

/-! ## Scanning -/

namespace UnsignedNumeral

/-- The scan takes a numeral that no digit and no point follows. -/
theorem scan?_text {n : UnsignedNumeral} (hn : n.IsValid) {rest : List Char}
    (hrest : ∀ c ∈ rest.head?, c.isDigit = false ∧ c ≠ '.') :
    scan? (n.text ++ rest) = some (n, rest) := by
  have hstop : ∀ c ∈ rest.head?, c.isDigit = false := fun c hc => (hrest c hc).1
  by_cases hnil : n.fraction = []
  · have htake := takeWhile_run hn.whole_isDigit hstop
    have hdrop := dropWhile_run hn.whole_isDigit hstop
    have hwhole := hn.whole_ne_nil hnil
    obtain ⟨whole, fraction⟩ := n
    simp only at hnil hwhole htake hdrop
    subst hnil
    simp only [scan?, text_of_fraction_nil, htake, hdrop]
    split
    · exact absurd rfl (hrest '.' rfl).2
    · simp [hwhole]
  · have hpoint : ∀ c ∈ ('.' :: (n.fraction ++ rest)).head?, c.isDigit = false := by
      simp only [List.head?_cons, Option.mem_some_iff]
      rintro c rfl
      rfl
    have htake := takeWhile_run hn.whole_isDigit hpoint
    have hdrop := dropWhile_run hn.whole_isDigit hpoint
    have htake' := takeWhile_run hn.fraction_isDigit hstop
    have hdrop' := dropWhile_run hn.fraction_isDigit hstop
    rw [text_of_fraction_ne_nil hnil, List.append_assoc, List.cons_append]
    simp [scan?, htake, hdrop, htake', hdrop', hnil]

/-- What the scan takes is a numeral, and nothing is lost. -/
theorem eq_of_scan?_eq_some {s rest : List Char} {n : UnsignedNumeral}
    (h : scan? s = some (n, rest)) : n.IsValid ∧ s = n.text ++ rest := by
  have hsplit : s.takeWhile Char.isDigit ++ s.dropWhile Char.isDigit = s :=
    List.takeWhile_append_dropWhile
  simp only [scan?] at h
  split at h
  · rename_i tail htail
    split at h
    · simp at h
    · rename_i hfraction
      simp only [Option.some.injEq, Prod.mk.injEq] at h
      obtain ⟨rfl, rfl⟩ := h
      have hne : tail.takeWhile Char.isDigit ≠ [] := by simpa using hfraction
      refine ⟨⟨fun _ => List.mem_takeWhile_imp, fun _ => List.mem_takeWhile_imp,
        fun hnil => absurd hnil hne⟩, ?_⟩
      rw [text_of_fraction_ne_nil hne, List.append_assoc, List.cons_append,
        List.takeWhile_append_dropWhile, ← htail, hsplit]
  · split at h
    · simp at h
    · rename_i hwhole
      simp only [Option.some.injEq, Prod.mk.injEq] at h
      obtain ⟨rfl, rfl⟩ := h
      refine ⟨⟨fun _ => List.mem_takeWhile_imp, by simp, fun _ => by simpa using hwhole⟩, ?_⟩
      rw [text_of_fraction_nil rfl, hsplit]

end UnsignedNumeral

/-! ## Writing -/

namespace Decimal

/-- The digits of a decimal from the first one, or the one in front of the
point, to the last one behind the point. -/
def paddedDigits (d : Decimal) : List Char :=
  let digits := Nat.toDigits 10 d.coefficient ++ List.replicate d.exponent.toNat '0'
  List.replicate ((-d.exponent).toNat + 1 - digits.length) '0' ++ digits

/-- The digits in front of the point and those behind it. -/
def unsignedNumeral (d : Decimal) : UnsignedNumeral :=
  ⟨d.paddedDigits.take (d.paddedDigits.length - (-d.exponent).toNat),
    d.paddedDigits.drop (d.paddedDigits.length - (-d.exponent).toNat)⟩

theorem paddedDigits_isDigit (d : Decimal) : ∀ c ∈ d.paddedDigits, c.isDigit = true := by
  simp only [paddedDigits, List.mem_append, List.mem_replicate]
  rintro c (⟨-, rfl⟩ | hc | ⟨-, rfl⟩)
  · rfl
  · exact Nat.isDigit_of_mem_toDigits (by decide) (by decide) hc
  · rfl

theorem lt_length_paddedDigits (d : Decimal) :
    (-d.exponent).toNat < d.paddedDigits.length := by
  have hpos : 0 < (Nat.toDigits 10 d.coefficient).length := Nat.length_toDigits_pos
  simp only [paddedDigits, List.length_append, List.length_replicate]
  omega

/-- The digits spell the coefficient, with the zeros of a positive exponent. -/
theorem ofDigitChars_paddedDigits (d : Decimal) :
    Nat.ofDigitChars 10 d.paddedDigits 0 = d.coefficient * 10 ^ d.exponent.toNat := by
  simp only [paddedDigits, Nat.ofDigitChars_append, Nat.ofDigitChars_replicate_zero, Nat.mul_zero,
    Nat.ofDigitChars_ten_toDigits]
  exact Nat.mul_comm _ _

theorem unsignedNumeral_fraction_length (d : Decimal) :
    d.unsignedNumeral.fraction.length = (-d.exponent).toNat := by
  have := d.lt_length_paddedDigits
  simp only [unsignedNumeral, List.length_drop]
  omega

theorem unsignedNumeral_isValid (d : Decimal) : d.unsignedNumeral.IsValid where
  whole_isDigit c hc := d.paddedDigits_isDigit c (List.mem_of_mem_take hc)
  fraction_isDigit c hc := d.paddedDigits_isDigit c (List.mem_of_mem_drop hc)
  whole_ne_nil _ := by
    have := d.lt_length_paddedDigits
    rw [← List.length_pos_iff]
    simp only [unsignedNumeral, List.length_take]
    omega

/-- The plain text of a decimal is its sign in front of its numeral. -/
theorem plainText_eq_append (d : Decimal) : d.plainText = d.signText ++ d.unsignedNumeral.text := by
  have hlength := d.unsignedNumeral_fraction_length
  rw [plainText, withPoint]
  congr 1
  split_ifs with hplaces
  · rw [hplaces, List.length_eq_zero_iff] at hlength
    rw [UnsignedNumeral.text_of_fraction_nil hlength]
    have hpos : 0 < (Nat.toDigits 10 d.coefficient).length := Nat.length_toDigits_pos
    have hpad : (-d.exponent).toNat + 1 - (Nat.toDigits 10 d.coefficient ++
        List.replicate d.exponent.toNat '0').length = 0 := by
      rw [hplaces, List.length_append]
      omega
    have hpadded : d.paddedDigits =
        Nat.toDigits 10 d.coefficient ++ List.replicate d.exponent.toNat '0' := by
      simp only [paddedDigits, hpad, List.replicate_zero, List.nil_append]
    rw [unsignedNumeral, hplaces, Nat.sub_zero, List.take_length, hpadded]
  · have hne : d.unsignedNumeral.fraction ≠ [] := by
      rw [← List.length_pos_iff, hlength]
      omega
    rw [UnsignedNumeral.text_of_fraction_ne_nil hne]
    rfl

theorem value_unsignedNumeral {d : Decimal} (h : d.negative = false) :
    d.unsignedNumeral.decimal.value = d.value := by
  have hdigits : d.unsignedNumeral.whole ++ d.unsignedNumeral.fraction = d.paddedDigits :=
    List.take_append_drop _ _
  rw [UnsignedNumeral.value_decimal, hdigits, ofDigitChars_paddedDigits,
    unsignedNumeral_fraction_length, value_of_nonneg h, ← tenPow_split, Nat.cast_mul, Nat.cast_pow,
    Nat.cast_ofNat, mul_div_assoc]

theorem coefficient_normalize_ne_zero {d : Decimal} (hne : d.value ≠ 0)
    (hdigits : d.coefficient < 10 ^ 28) : d.normalize.coefficient ≠ 0 := by
  intro hzero
  rw [← value_normalize hdigits, value, hzero] at hne
  simp at hne

/-- A decimal other than zero of at most 28 digits is written as its sign and a
numeral. -/
theorem secondsText_of_ne_zero {d : Decimal} (hne : d.value ≠ 0)
    (hdigits : d.coefficient < 10 ^ 28) :
    d.secondsText = d.signText ++ d.normalize.unsignedNumeral.text := by
  rw [secondsText, if_neg (coefficient_normalize_ne_zero hne hdigits), plainText_eq_append, signText,
    signText, normalize_negative hdigits]

section Positive

variable {d : Decimal} (hpos : 0 < d.value) (hdigits : d.coefficient < 10 ^ 28)
include hpos hdigits

theorem negative_normalize : d.normalize.negative = false :=
  negative_eq_false_of_pos (value_normalize hdigits ▸ hpos)

theorem secondsText_of_pos : d.secondsText = d.normalize.unsignedNumeral.text := by
  rw [secondsText_of_ne_zero hpos.ne' hdigits, signText, negative_eq_false_of_pos hpos,
    if_neg (by decide), List.nil_append]

/-- A positive decimal of at most 28 digits is written as a numeral of the
same value. -/
theorem secondsText_eq :
    ∃ n : UnsignedNumeral, n.IsValid ∧ d.secondsText = n.text ∧ n.decimal.value = d.value := by
  refine ⟨d.normalize.unsignedNumeral, d.normalize.unsignedNumeral_isValid,
    secondsText_of_pos hpos hdigits, ?_⟩
  rw [value_unsignedNumeral (negative_normalize hpos hdigits), value_normalize hdigits]

end Positive

end Decimal

end KineticText
