import KineticText.Proofs.Datum.Number
import KineticText.Proofs.Number.Reading
import KineticText.Proofs.Tag.Canonical

/-!
# The text of a number

A finite double is written without a power of ten: its shortest decimal in the
one form in which no digit can be left out, and a zero without a sign.  What is
written has the exact value of the double's own text, and a setting reads the
double from it again (`Binary64.IsWrittenAs`).  So two finite doubles have the
same text if they are the same number, and not otherwise
(`Binary64.exists_isWrittenAs`).

There are four groups: equal doubles, texts of decimals, texts of numbers as
settings, and the text of a double.
-/

namespace KineticText

/-! ## Equal doubles -/

namespace Binary64

variable {x y : Binary64}

theorem sameNumber_iff (hx : x.isFinite = true) (hy : y.isFinite = true) :
    x.sameNumber y = true ↔ x.value = y.value := by
  have hle : x.sameNumber y = true ↔ x ≤ y ∧ y ≤ x := by
    rw [sameNumber, Bool.and_eq_true]
    rfl
  rw [hle, le_iff_key, le_iff_key, isNaN_of_isFinite hx, isNaN_of_isFinite hy,
    value_eq_value_iff hx hy]
  simp only [true_and]
  exact antisymm_iff

theorem sameNumber_zero_iff (hx : x.isFinite = true) : x.sameNumber 0 = true ↔ x.value = 0 := by
  rw [sameNumber_iff hx isFinite_zero, value_zero]

theorem eq_of_value_eq (hx : x.isFinite = true) (hy : y.isFinite = true) (h : x.value = y.value)
    (hne : x.value ≠ 0) : x = y := by
  refine eq_of_key_eq hx hy ((value_eq_value_iff hx hy).1 h) fun hkey => hne ?_
  rw [value_eq_valueAt hx, hkey, valueAt_zero]

theorem value_finite_eq_zero_iff (negative : Bool) (m : Magnitude) :
    (finite negative m).value = 0 ↔ m.rank = 0 := by
  rw [value_finite]
  cases negative with
  | false => simpa [magnitudeAt_zero] using magnitudeAt_strictMono.injective.eq_iff (b := 0)
  | true => simpa [magnitudeAt_zero] using magnitudeAt_strictMono.injective.eq_iff (b := 0)

/-- The written decimal of a double is zero where the double is. -/
theorem value_writtenDecimal_eq_zero_iff (negative : Bool) (m : Magnitude) :
    (writtenDecimal negative m).value = 0 ↔ (finite negative m).value = 0 := by
  rw [value_finite_eq_zero_iff]
  constructor
  · intro h
    have hwritten := isNearestRank_writtenDecimal negative m
    have hzero := isNearestRank_magnitudeAt 0
    rw [h, abs_zero] at hwritten
    rw [magnitudeAt_zero] at hzero
    exact hwritten.unique hzero
  · intro h
    rw [writtenDecimal_of_rank_eq_zero negative h]
    simp [Decimal.value]

end Binary64

/-! ## Texts of decimals -/

namespace Decimal

open Numeral

variable {d : Decimal}

theorem secondsText_of_eq_zero (hzero : d.value = 0) (hdigits : d.coefficient < 10 ^ 28) :
    d.secondsText = ['0'] := by
  refine if_pos ?_
  have hvalue := abs_value d.normalize
  rw [value_normalize hdigits, hzero, abs_zero, zero_eq_mul] at hvalue
  exact_mod_cast hvalue.resolve_right (by positivity)

/-- The text of a decimal is a number without a power of ten. -/
theorem isPlainChar_secondsText (hdigits : d.coefficient < 10 ^ 28) :
    ∀ c ∈ d.secondsText, IsPlainChar c := by
  by_cases hzero : d.value = 0
  · rw [secondsText_of_eq_zero hzero hdigits]
    simp [IsPlainChar]
  · rw [secondsText_of_ne_zero hzero hdigits]
    intro c hc
    rcases List.mem_append.1 hc with hsign | htext
    · rw [signText] at hsign
      split_ifs at hsign
      · exact .inr (.inl (List.mem_singleton.1 hsign))
      · cases hsign
    · exact (UnsignedNumeral.mem_text d.normalize.unsignedNumeral_isValid htext).imp_right .inr

/-- The text of a decimal is read as a numeral of the same value, with its sign
unless it is zero. -/
theorem exists_read?_secondsText (hdigits : d.coefficient < 10 ^ 28) :
    ∃ k, read? d.secondsText = some k ∧ k.decimal.value = d.value ∧
      k.decimal.negative = (d.negative && d.value ≠ 0) := by
  by_cases hzero : d.value = 0
  · rw [secondsText_of_eq_zero hzero hdigits]
    have hdigits : Nat.ofDigitChars 10 ['0'] 0 = 0 := by decide
    refine ⟨⟨false, ['0'], [], 0⟩, rfl, ?_, ?_⟩
    · rw [hzero]
      simp [value, decimal, hdigits]
    · simp [hzero, decimal]
  · obtain ⟨k, hread, hsign, hvalue⟩ := exists_read?_plainText d.normalize
    rw [secondsText, if_neg (coefficient_normalize_ne_zero hzero hdigits)]
    refine ⟨k, hread, hvalue.trans (value_normalize hdigits), ?_⟩
    rw [hsign, normalize_negative hdigits]
    simp [hzero]

end Decimal

/-! ## Texts of numbers as settings -/

namespace Datum

/-- The text of a number, as it is written in a tag. -/
def secondsText (v : Datum) : Except Fault (List Char) := v.toDecimal.map Decimal.secondsText

/-- A number without a power of ten is read as the double nearest to it. -/
theorem readNumber_text {s : List Char} {k : Numeral} (hs : ∀ c ∈ s, Numeral.IsPlainChar c)
    (hk : Numeral.read? s = some k) (hfinite : k.decimal.toBinary64.isFinite = true)
    (name : String) : (text (String.ofList s)).readNumber name = .ok k.decimal.toBinary64 := by
  have hread : Binary64.read? (Text.trim Text.isBlank (String.ofList s).toList) =
      some k.decimal.toBinary64 := by
    rw [String.toList_ofList, Text.trim_eq_self fun c hc => (hs c hc).isBlank_eq_false,
      Binary64.read?_eq_map hs, hk, Option.map_some]
  simp only [readNumber, hread, bind, Except.bind, hfinite, if_true]
  rfl

end Datum

/-! ## The text of a double -/

namespace Binary64

variable {x : Binary64}

/-- The text of a double without a power of ten. -/
structure IsWrittenAs (x : Binary64) (s : List Char) : Prop where
  secondsText_eq : (Datum.real x).secondsText = .ok s
  zero : x.sameNumber 0 = true → s = ['0']
  /-- Any other number is a sign in front of digits that are all needed. -/
  canonical : x.sameNumber 0 = false →
    ∃ u : UnsignedNumeral, u.IsCanonical ∧ s = (if x.isNegative then ['-'] else []) ++ u.text
  /-- The exact value is that of the text of the double. -/
  exact : ∃ k n, Numeral.read? s = some k ∧ Numeral.read? x.text = some n ∧
    k.decimal.value = n.decimal.value
  /-- A setting reads the double again, but for the sign of a zero. -/
  read : ∀ name, (Datum.text (String.ofList s)).readNumber name =
    .ok (if x.sameNumber 0 then 0 else x)

theorem isWrittenAs (negative : Bool) (m : Magnitude) :
    (finite negative m).IsWrittenAs (writtenDecimal negative m).secondsText := by
  have hdigits := writtenDecimal_coefficient_lt negative m
  have hsign := writtenDecimal_negative negative m
  have hzero : (finite negative m).sameNumber 0 = true ↔ (writtenDecimal negative m).value = 0 := by
    rw [sameNumber_zero_iff rfl, value_writtenDecimal_eq_zero_iff]
  obtain ⟨k, hread, hvalue, hnegative⟩ := Decimal.exists_read?_secondsText hdigits
  refine ⟨rfl, fun h => Decimal.secondsText_of_eq_zero (hzero.1 h) hdigits, fun h => ?_, ?_, ?_⟩
  · have hne : (writtenDecimal negative m).value ≠ 0 := fun hvalue => by
      rw [hzero.2 hvalue] at h
      cases h
    have hlast := Decimal.normalize_mod_ten hdigits
      (Decimal.coefficient_normalize_ne_zero hne hdigits)
    refine ⟨_, Decimal.unsignedNumeral_isCanonical hlast, ?_⟩
    rw [Decimal.secondsText_of_ne_zero hne hdigits, Decimal.signText, hsign]
    rfl
  · obtain ⟨n, hn, -, hnValue⟩ := Numeral.exists_read?_text negative m
    exact ⟨k, n, hread, hn, hvalue.trans hnValue.symm⟩
  · have hdouble : k.decimal.toBinary64 =
        if (finite negative m).sameNumber 0 then 0 else finite negative m := by
      split_ifs with h
      · have hk : k.decimal.negative = (Decimal.ofInt 0).negative := by
          rw [hnegative, hzero.1 h]
          simp [Decimal.ofInt]
        have habs : |k.decimal.value| = |(Decimal.ofInt 0).value| := by
          rw [hvalue, hzero.1 h, Decimal.value_ofInt, Int.cast_zero]
        exact (Decimal.toBinary64_congr habs hk).trans (Decimal.toBinary64_ofInt 0)
      · have hk : k.decimal.negative = (writtenDecimal negative m).negative := by
          simp [hnegative, mt hzero.2 h]
        rw [Decimal.toBinary64_congr (by rw [hvalue]) hk, toBinary64_writtenDecimal]
    have hfinite : k.decimal.toBinary64.isFinite = true := by
      rw [hdouble]
      split_ifs
      · exact isFinite_zero
      · rfl
    rw [← hdouble]
    exact Datum.readNumber_text (Decimal.isPlainChar_secondsText hdigits) hread hfinite

/-- The double that is read has the same value. -/
theorem value_ite_zero (hx : x.isFinite = true) :
    (if x.sameNumber 0 then 0 else x).value = x.value := by
  split_ifs with h
  · rw [value_zero, (sameNumber_zero_iff hx).1 h]
  · rfl

/-- Every finite double is written in its one text, and two of them in the same
text if they are the same number. -/
theorem exists_isWrittenAs {x y : Binary64} (hx : x.isFinite = true) (hy : y.isFinite = true) :
    ∃ s t, x.IsWrittenAs s ∧ y.IsWrittenAs t ∧ (s = t ↔ x.sameNumber y = true) := by
  obtain ⟨a, m, rfl⟩ := exists_finite_of_isFinite hx
  obtain ⟨b, n, rfl⟩ := exists_finite_of_isFinite hy
  have hs := isWrittenAs a m
  have ht := isWrittenAs b n
  refine ⟨_, _, hs, ht, ?_⟩
  rw [sameNumber_iff hx hy]
  constructor
  · intro heq
    have hread := hs.read ""
    rw [heq, ht.read ""] at hread
    rw [← value_ite_zero hx, ← value_ite_zero hy, Except.ok.inj hread]
  · intro hvalue
    by_cases hzero : (finite a m).value = 0
    · rw [hs.zero ((sameNumber_zero_iff hx).2 hzero),
        ht.zero ((sameNumber_zero_iff hy).2 (hvalue.symm.trans hzero))]
    · cases eq_of_value_eq hx hy hvalue hzero
      rfl

/-- A ten-millionth below zero. -/
def negativeTenMillionth : Binary64 := Decimal.toBinary64 ⟨true, 1, -7⟩

example : negativeTenMillionth.text = "-1e-07".toList ∧
    (Datum.real negativeTenMillionth).secondsText = .ok "-0.0000001".toList := by
  decide +kernel

/-- Its text is not that of the negative zero. -/
theorem exists_isWrittenAs_negativeTenMillionth :
    negativeTenMillionth.isFinite = true ∧ (zero true).isFinite = true ∧
      ∃ s t, negativeTenMillionth.IsWrittenAs s ∧ (zero true).IsWrittenAs t ∧ s ≠ t := by
  have hfinite : negativeTenMillionth.isFinite = true := by decide +kernel
  have hzero : (zero true).isFinite = true := rfl
  obtain ⟨s, t, hs, ht, hsame⟩ := exists_isWrittenAs hfinite hzero
  have hother : negativeTenMillionth.sameNumber (zero true) = false := by decide +kernel
  refine ⟨hfinite, hzero, s, t, hs, ht, fun heq => ?_⟩
  rw [hsame.1 heq] at hother
  cases hother

end Binary64

end KineticText
