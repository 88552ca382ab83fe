import KineticText.Proofs.Number.FifteenDigits
import KineticText.Proofs.Tag.RoundTrip

/-!
# Numbers in canonical form

A number of a tag may be written with zeros in front and behind.  Without them
its digits are determined by its value (`UnsignedNumeral.IsCanonical.eq_of_value`),
and so are those in which a time is written (`Decimal.secondsText_eq_text`).  A
number of at most fifteen digits is the shortest decimal of its own double.  So
a tag whose numbers are of this kind is written as it was read
(`Tag.text_of_read`).

There are four groups: digits, canonical numerals, the text of a time, and
tags.
-/

namespace KineticText

/-! ## Digits -/

section Digits

variable {c : Char} {s t : List Char}

theorem digit_bounds (h : c.isDigit = true) : '0'.toNat ≤ c.toNat ∧ c.toNat < '0'.toNat + 10 := by
  rcases isDigit_iff.1 h with rfl | rfl | rfl | rfl | rfl | rfl | rfl | rfl | rfl | rfl <;> decide

theorem ofDigitChars_cons (c : Char) (s : List Char) :
    Nat.ofDigitChars 10 (c :: s) 0 =
      10 ^ s.length * (c.toNat - '0'.toNat) + Nat.ofDigitChars 10 s 0 := by
  rw [Nat.ofDigitChars_cons, Nat.ofDigitChars_eq_ofDigitChars_zero, Nat.mul_zero, Nat.zero_add]

theorem ofDigitChars_lt (h : ∀ c ∈ s, c.isDigit = true) :
    Nat.ofDigitChars 10 s 0 < 10 ^ s.length := by
  induction s with
  | nil => simp
  | cons c s ih =>
    rw [List.forall_mem_cons] at h
    have hdigit := digit_bounds h.1
    have htail := ih h.2
    have hfirst : 10 ^ s.length * (c.toNat - '0'.toNat) ≤ 10 ^ s.length * 9 :=
      Nat.mul_le_mul_left _ (by omega)
    rw [ofDigitChars_cons, List.length_cons, pow_succ]
    omega

/-- A quotient and a remainder are determined by their number. -/
theorem eq_of_mul_add_eq {n a b x y : ℕ} (hx : x < n) (hy : y < n) (h : n * a + x = n * b + y) :
    a = b ∧ x = y := by
  have hn : 0 < n := by omega
  have hquotient : a = b := by
    have hdiv := congrArg (· / n) h
    simpa only [Nat.mul_add_div hn, Nat.div_eq_of_lt hx, Nat.div_eq_of_lt hy, Nat.add_zero]
      using hdiv
  subst hquotient
  exact ⟨rfl, Nat.add_left_cancel h⟩

/-- As many digits with the same number are the same digits. -/
theorem ofDigitChars_inj (hs : ∀ c ∈ s, c.isDigit = true) (ht : ∀ c ∈ t, c.isDigit = true)
    (hlength : s.length = t.length) (h : Nat.ofDigitChars 10 s 0 = Nat.ofDigitChars 10 t 0) :
    s = t := by
  induction s generalizing t with
  | nil => exact (List.length_eq_zero_iff.1 hlength.symm).symm
  | cons c s ih =>
    cases t with
    | nil => cases hlength
    | cons d t =>
      rw [List.forall_mem_cons] at hs ht
      have htails : s.length = t.length := Nat.succ.inj hlength
      rw [ofDigitChars_cons, ofDigitChars_cons, htails] at h
      obtain ⟨hfirst, htail⟩ :=
        eq_of_mul_add_eq (htails ▸ ofDigitChars_lt hs.2) (ofDigitChars_lt ht.2) h
      have hc := digit_bounds hs.1
      have hd := digit_bounds ht.1
      have hcd : c = d := Char.toNat_inj.1 (by omega)
      rw [hcd, ih hs.2 ht.2 htails htail]

/-- The last digit is the rest by ten. -/
theorem ofDigitChars_mod_ten (h : s.getLast? = some c) (hc : c.isDigit = true) :
    Nat.ofDigitChars 10 s 0 % 10 = c.toNat - '0'.toNat := by
  obtain ⟨front, rfl⟩ := List.getLast?_eq_some_iff.1 h
  have hdigit := digit_bounds hc
  rw [Nat.ofDigitChars_append, Nat.ofDigitChars_cons, Nat.ofDigitChars_nil, Nat.mul_add_mod,
    Nat.mod_eq_of_lt (by omega)]

theorem ofDigitChars_mod_ten_ne_zero_iff (h : s.getLast? = some c) (hc : c.isDigit = true) :
    Nat.ofDigitChars 10 s 0 % 10 ≠ 0 ↔ c ≠ '0' := by
  have hdigit := digit_bounds hc
  rw [ofDigitChars_mod_ten h hc, ne_eq, ne_eq, ← Char.toNat_inj, not_iff_not]
  omega

/-- Zeros in front do not count. -/
theorem ofDigitChars_dropWhile (s : List Char) :
    Nat.ofDigitChars 10 (s.dropWhile (· = '0')) 0 = Nat.ofDigitChars 10 s 0 := by
  induction s with
  | nil => rfl
  | cons c s ih =>
    by_cases hc : c = '0'
    · rw [List.dropWhile_cons_of_pos (by simp [hc]), ih, ofDigitChars_cons, hc, Nat.sub_self,
        Nat.mul_zero, Nat.zero_add]
    · rw [List.dropWhile_cons_of_neg (by simp [hc])]

/-- The first digit of a positive number is no zero. -/
theorem head?_toDigits_ne {n : ℕ} (hn : n ≠ 0) : (Nat.toDigits 10 n).head? ≠ some '0' := by
  intro h
  obtain ⟨rest, hdigits⟩ := List.head?_eq_some_iff.1 h
  have hmem (c : Char) (hc : c ∈ rest) : c.isDigit = true :=
    Nat.isDigit_of_mem_toDigits (by decide) (by decide) (hdigits ▸ List.mem_cons_of_mem _ hc)
  have hvalue : n = Nat.ofDigitChars 10 rest 0 := by
    have hback := Nat.ofDigitChars_ten_toDigits (n := n)
    rw [hdigits, ofDigitChars_cons, Nat.sub_self, Nat.mul_zero, Nat.zero_add] at hback
    exact hback.symm
  have hlt := ofDigitChars_lt hmem
  rw [← hvalue] at hlt
  rcases Nat.eq_zero_or_pos rest.length with hzero | hpos
  · rw [hzero, pow_zero] at hlt
    omega
  · have hlength := (Nat.length_toDigits_le_iff (by decide) hpos).2 hlt
    rw [hdigits, List.length_cons] at hlength
    omega

end Digits

/-! ## Canonical numerals -/

namespace UnsignedNumeral

/-- No digit can be left out: in front there is a single zero or no zero at the
beginning, and there is none at the end behind the point. -/
structure IsCanonical (n : UnsignedNumeral) : Prop extends IsValid n where
  whole_eq : n.whole = ['0'] ∨ ∃ c ∈ n.whole.head?, c ≠ '0'
  fraction_getLast : n.fraction.getLast? ≠ some '0'

theorem isCanonical_iff {n : UnsignedNumeral} : n.IsCanonical ↔
    (n.whole ++ n.fraction).all Char.isDigit = true ∧
      (n.whole = ['0'] ∨ n.whole.head?.any (· ≠ '0') = true) ∧
        n.fraction.getLast? ≠ some '0' := by
  have hany : n.whole.head?.any (· ≠ '0') = true ↔ ∃ c ∈ n.whole.head?, c ≠ '0' := by
    simp [Option.any_eq_true]
  rw [List.all_eq_true, hany]
  constructor
  · intro h
    refine ⟨fun c hc => ?_, h.whole_eq, h.fraction_getLast⟩
    exact (List.mem_append.1 hc).elim (h.whole_isDigit c) (h.fraction_isDigit c)
  · intro h
    obtain ⟨hdigit, hwhole, hlast⟩ := h
    refine ⟨⟨fun c hc => hdigit c (List.mem_append_left _ hc),
      fun c hc => hdigit c (List.mem_append_right _ hc), fun _ hnil => ?_⟩, hwhole, hlast⟩
    simp [hnil] at hwhole

instance (n : UnsignedNumeral) : Decidable n.IsCanonical := decidable_of_iff' _ isCanonical_iff

namespace IsCanonical

variable {m n : UnsignedNumeral}

theorem length_whole_pos (hn : n.IsCanonical) : 0 < n.whole.length := by
  rw [List.length_pos_iff]
  intro hnil
  simpa [hnil] using hn.whole_eq

theorem tenPow_le_whole (hn : n.IsCanonical) (hne : n.whole ≠ ['0']) :
    10 ^ (n.whole.length - 1) ≤ Nat.ofDigitChars 10 n.whole 0 := by
  obtain ⟨c, hhead, hc⟩ := hn.whole_eq.resolve_left hne
  obtain ⟨rest, hwhole⟩ := List.head?_eq_some_iff.1 hhead
  have hdigit := digit_bounds (hn.whole_isDigit c (by simp [hwhole]))
  have hpos : 1 ≤ c.toNat - '0'.toNat := by
    have hne : c.toNat ≠ '0'.toNat := fun h => hc (Char.toNat_inj.1 h)
    omega
  rw [hwhole, ofDigitChars_cons, List.length_cons, Nat.add_sub_cancel]
  exact (Nat.le_mul_of_pos_right _ hpos).trans (Nat.le_add_right _ _)

/-- The digits in front of the point have their length from their number. -/
theorem length_whole_le (hm : m.IsCanonical) (hn : n.IsCanonical) (hne : m.whole ≠ ['0'])
    (h : Nat.ofDigitChars 10 m.whole 0 = Nat.ofDigitChars 10 n.whole 0) :
    m.whole.length ≤ n.whole.length := by
  have hlow := hm.tenPow_le_whole hne
  have hhigh := ofDigitChars_lt hn.whole_isDigit
  rw [h] at hlow
  have hlt := (Nat.pow_lt_pow_iff_right (by decide)).1 (hlow.trans_lt hhigh)
  omega

theorem whole_inj (hm : m.IsCanonical) (hn : n.IsCanonical)
    (h : Nat.ofDigitChars 10 m.whole 0 = Nat.ofDigitChars 10 n.whole 0) : m.whole = n.whole := by
  refine ofDigitChars_inj hm.whole_isDigit hn.whole_isDigit (le_antisymm ?_ ?_) h
  · rcases eq_or_ne m.whole ['0'] with hzero | hne
    · rw [hzero]
      exact hn.length_whole_pos
    · exact hm.length_whole_le hn hne h
  · rcases eq_or_ne n.whole ['0'] with hzero | hne
    · rw [hzero]
      exact hm.length_whole_pos
    · exact hn.length_whole_le hm hne h.symm

theorem mod_ten_ne_zero (hn : n.IsCanonical) (hne : n.fraction ≠ []) :
    Nat.ofDigitChars 10 (n.whole ++ n.fraction) 0 % 10 ≠ 0 := by
  obtain ⟨front, c, hfraction⟩ := (List.eq_nil_or_concat n.fraction).resolve_left hne
  have hlast : n.fraction.getLast? = some c := by simp [hfraction]
  have hdigit := hn.fraction_isDigit c (List.mem_of_getLast? hlast)
  have hwhole : (n.whole ++ n.fraction).getLast? = some c := by
    rw [List.getLast?_append, hlast, Option.some_or]
  refine (ofDigitChars_mod_ten_ne_zero_iff hwhole hdigit).2 ?_
  rintro rfl
  exact hn.fraction_getLast hlast

/-- A number has as many places behind the point as it needs. -/
theorem length_fraction_le (hn : n.IsCanonical) (h : m.decimal.value = n.decimal.value) :
    n.fraction.length ≤ m.fraction.length := by
  by_contra hlt
  obtain ⟨k, hk⟩ := Nat.exists_eq_add_of_lt (not_le.1 hlt)
  have hne : n.fraction ≠ [] := by
    rw [← List.length_pos_iff]
    omega
  rw [value_decimal, value_decimal, div_eq_div_iff (by positivity) (by positivity)] at h
  have hscaled : Nat.ofDigitChars 10 (m.whole ++ m.fraction) 0 * 10 ^ n.fraction.length =
      Nat.ofDigitChars 10 (n.whole ++ n.fraction) 0 * 10 ^ m.fraction.length := by
    exact_mod_cast h
  rw [hk, Nat.add_assoc, pow_add, mul_comm (10 ^ m.fraction.length), ← mul_assoc] at hscaled
  have hdigits := Nat.eq_of_mul_eq_mul_right (by positivity) hscaled
  refine hn.mod_ten_ne_zero hne ?_
  rw [← hdigits, pow_succ, ← mul_assoc]
  exact Nat.mul_mod_left _ _

/-- The digits are determined by the number. -/
theorem eq_of_value (hm : m.IsCanonical) (hn : n.IsCanonical)
    (h : m.decimal.value = n.decimal.value) : m = n := by
  have hlength : m.fraction.length = n.fraction.length :=
    le_antisymm (hm.length_fraction_le h.symm) (hn.length_fraction_le h)
  have hdigits : Nat.ofDigitChars 10 (m.whole ++ m.fraction) 0 =
      Nat.ofDigitChars 10 (n.whole ++ n.fraction) 0 := by
    rw [value_decimal, value_decimal, hlength, div_left_inj' (by positivity)] at h
    exact_mod_cast h
  rw [Nat.ofDigitChars_append, Nat.ofDigitChars_append, Nat.ofDigitChars_eq_ofDigitChars_zero,
    Nat.ofDigitChars_eq_ofDigitChars_zero (l := n.fraction), hlength] at hdigits
  obtain ⟨hwhole, hfraction⟩ := eq_of_mul_add_eq (hlength ▸ ofDigitChars_lt hm.fraction_isDigit)
    (ofDigitChars_lt hn.fraction_isDigit) hdigits
  have hwholes := hm.whole_inj hn hwhole
  have hfractions := ofDigitChars_inj hm.fraction_isDigit hn.fraction_isDigit hlength hfraction
  cases m
  cases n
  exact congrArg₂ _ hwholes hfractions

end IsCanonical

end UnsignedNumeral

/-! ## The text of a time -/

namespace Decimal

variable {d : Decimal}

theorem dropZeros_mod_ten {fuel c : ℕ} (hc : c ≠ 0) (hfuel : c < 10 ^ fuel) (e : ℤ) :
    (dropZeros fuel c e).1 % 10 ≠ 0 := by
  induction fuel generalizing c e with
  | zero =>
    rw [pow_zero] at hfuel
    omega
  | succ fuel ih =>
    rw [dropZeros]
    split_ifs with hlast
    · exact ih (by omega) (by rw [pow_succ] at hfuel; omega) (e + 1)
    · exact hlast

theorem whole_unsignedNumeral (hcoefficient : d.coefficient ≠ 0) :
    d.unsignedNumeral.whole = ['0'] ∨ ∃ c ∈ d.unsignedNumeral.whole.head?, c ≠ '0' := by
  obtain ⟨c, rest, hdigits⟩ := List.exists_cons_of_ne_nil (Nat.toDigits_ne_nil (n := d.coefficient)
    (b := 10))
  have hc : c ≠ '0' := fun h => head?_toDigits_ne hcoefficient (by rw [hdigits, h]; rfl)
  have hplaces := d.lt_length_paddedDigits
  rw [unsignedNumeral]
  rw [paddedDigits, hdigits] at hplaces ⊢
  dsimp only at hplaces ⊢
  generalize hpad : (-d.exponent).toNat + 1 -
    (c :: rest ++ List.replicate d.exponent.toNat '0').length = pad at hplaces ⊢
  cases pad with
  | zero =>
    -- There are digits enough, and the first of them stands in front.
    rw [List.replicate_zero, List.nil_append] at hplaces ⊢
    obtain ⟨k, hk⟩ := Nat.exists_eq_add_of_lt hplaces
    rw [hk, Nat.add_assoc, Nat.add_sub_cancel_left, List.cons_append, List.take_succ_cons]
    exact .inr ⟨c, rfl, hc⟩
  | succ pad =>
    have hlength : (List.replicate (pad + 1) '0' ++
        (c :: rest ++ List.replicate d.exponent.toNat '0')).length = (-d.exponent).toNat + 1 := by
      rw [List.length_append, List.length_replicate]
      omega
    rw [hlength, Nat.add_sub_cancel_left, List.replicate_succ, List.cons_append,
      List.take_succ_cons, List.take_zero]
    exact .inl rfl

theorem getLast?_fraction_unsignedNumeral (hlast : d.coefficient % 10 ≠ 0) :
    d.unsignedNumeral.fraction.getLast? ≠ some '0' := by
  rw [unsignedNumeral, List.getLast?_drop]
  split_ifs with hempty
  · simp
  · -- There are places behind the point, so that no zeros stand behind the coefficient.
    have hplaces : d.exponent.toNat = 0 := by omega
    rw [paddedDigits, hplaces, List.replicate_zero, List.append_nil, List.getLast?_append]
    obtain ⟨front, c, hdigits⟩ :=
      (List.eq_nil_or_concat (Nat.toDigits 10 d.coefficient)).resolve_left Nat.toDigits_ne_nil
    have hgetLast : (Nat.toDigits 10 d.coefficient).getLast? = some c := by simp [hdigits]
    have hdigit :=
      Nat.isDigit_of_mem_toDigits (by decide) (by decide) (List.mem_of_getLast? hgetLast)
    rw [← Nat.ofDigitChars_ten_toDigits (n := d.coefficient),
      ofDigitChars_mod_ten_ne_zero_iff hgetLast hdigit] at hlast
    rw [hgetLast, Option.some_or, ne_eq, Option.some.injEq]
    exact hlast

/-- A positive decimal without a zero at its end is written as a canonical
numeral. -/
theorem unsignedNumeral_isCanonical (hlast : d.coefficient % 10 ≠ 0) :
    d.unsignedNumeral.IsCanonical where
  toIsValid := d.unsignedNumeral_isValid
  whole_eq := whole_unsignedNumeral (by omega)
  fraction_getLast := getLast?_fraction_unsignedNumeral hlast

theorem normalize_mod_ten (hdigits : d.coefficient < 10 ^ 28) (h : d.normalize.coefficient ≠ 0) :
    d.normalize.coefficient % 10 ≠ 0 := by
  rw [normalize, round_eq_self hdigits] at h ⊢
  dsimp only at h ⊢
  split_ifs at h ⊢ with hzero
  · exact absurd rfl h
  · exact dropZeros_mod_ten hzero d.coefficient_lt d.exponent

/-- A positive decimal is written in the one canonical form of its number. -/
theorem secondsText_eq_text {n : UnsignedNumeral} (hpos : 0 < d.value)
    (hdigits : d.coefficient < 10 ^ 28) (hn : n.IsCanonical) (h : n.decimal.value = d.value) :
    d.secondsText = n.text := by
  have hlast := normalize_mod_ten hdigits (coefficient_normalize_ne_zero hpos.ne' hdigits)
  have hvalue : d.normalize.unsignedNumeral.decimal.value = n.decimal.value := by
    rw [value_unsignedNumeral (negative_normalize hpos hdigits), value_normalize hdigits, h]
  rw [secondsText_of_pos hpos hdigits, (unsignedNumeral_isCanonical hlast).eq_of_value hn hvalue]

end Decimal

/-! ## Tags -/

/-- A canonical numeral of at most fifteen significant digits that is not below
`10 ^ -300`. -/
structure UnsignedNumeral.IsShort (n : UnsignedNumeral) : Prop extends IsCanonical n where
  length_le : ((n.whole ++ n.fraction).dropWhile (· = '0')).length ≤ 15
  le_value : (10 : ℚ) ^ (-300 : ℤ) ≤ n.decimal.value

/-- Digits that are not all zeros reach as far down as there are places. -/
theorem UnsignedNumeral.tenPow_le_value {n : UnsignedNumeral} {k : ℕ}
    (hne : n.decimal.coefficient ≠ 0) (hplaces : n.fraction.length ≤ k) :
    (10 : ℚ) ^ (-k : ℤ) ≤ n.decimal.value := by
  rw [Decimal.value_of_nonneg rfl]
  exact (zpow_le_zpow_right₀ (by norm_num) (neg_le_neg (Nat.cast_le.2 hplaces))).trans
    (tenPow_le_point hne _)

namespace UnsignedNumeral.IsShort

variable {n : UnsignedNumeral} (hn : n.IsShort)
include hn

theorem coefficient_lt : n.decimal.coefficient < 10 ^ 15 := by
  have hdigit : ∀ c ∈ (n.whole ++ n.fraction).dropWhile (· = '0'), c.isDigit = true := by
    intro c hc
    rcases List.mem_append.1 ((List.dropWhile_sublist _).mem hc) with hwhole | hfraction
    · exact hn.whole_isDigit c hwhole
    · exact hn.fraction_isDigit c hfraction
  have hlt := ofDigitChars_lt hdigit
  rw [ofDigitChars_dropWhile] at hlt
  exact hlt.trans_le (Nat.pow_le_pow_right (by decide) hn.length_le)

/-- A number that is not too small has its fifteen digits in front of the last
place of doubles. -/
theorem length_fraction_lt : n.fraction.length < 315 := by
  have hdigits : (Nat.ofDigitChars 10 (n.whole ++ n.fraction) 0 : ℚ) < 10 ^ (15 : ℤ) := by
    exact_mod_cast hn.coefficient_lt
  have hlow := hn.le_value
  rw [value_decimal, le_div_iff₀ (by positivity), ← zpow_natCast, ← zpow_add₀ (by norm_num)] at hlow
  have hexponent := (zpow_lt_zpow_iff_right₀ (by norm_num)).1 (hlow.trans_lt hdigits)
  omega

/-- A time that is read from a short numeral is written in its text. -/
theorem secondsText_eq {f : NumberField} (hrange : n.decimal.inRange f.limit = true) :
    (Quantity.real n.decimal.toBinary64).seconds.secondsText = n.text := by
  obtain ⟨m, -, hdouble, -⟩ := Tag.toBinary64_of_inRange hrange
  have hplaces := hn.length_fraction_lt
  have hfinite : n.decimal.toBinary64.isFinite = true := by
    rw [hdouble]
    rfl
  obtain ⟨d, hd, hvalue⟩ := Decimal.exists_toDecimal?_toBinary64 hn.coefficient_lt
    (e := -n.fraction.length) (by omega) (Decimal.abs_value _) hfinite
  obtain ⟨d', hd', -, hdigits⟩ := Quantity.exists_decimal (Tag.inRange_toBinary64 hrange)
  obtain rfl : d' = d := Option.some.inj (hd'.symm.trans hd)
  rw [Quantity.seconds, hd', Option.getD_some]
  refine Decimal.secondsText_eq_text ?_ hdigits hn.toIsCanonical hvalue.symm
  rw [hvalue]
  exact (Tag.inRange_iff.1 hrange).1

end UnsignedNumeral.IsShort

namespace Tag

/-- The three numbers of the parts are short. -/
structure Parts.IsShort (p : Parts) : Prop where
  entrySpeed : p.entrySpeed.IsShort
  displayDuration : p.displayDuration.IsShort
  exitSpeed : p.exitSpeed.IsShort

theorem Parts.IsShort.isValid {p : Parts} (hp : p.IsShort) : p.IsValid :=
  ⟨hp.entrySpeed.toIsValid, hp.displayDuration.toIsValid, hp.exitSpeed.toIsValid⟩

theorem Parts.IsValid.eq_of_text {p q : Parts} (hp : p.IsValid) (hq : q.IsValid)
    (h : p.text = q.text) : p = q := by
  have hread : Parts.read p.text = .ok q := Parts.read_eq_ok_iff.2 ⟨hq, h⟩
  rw [Parts.read_eq_ok_iff.2 ⟨hp, rfl⟩, Except.ok.injEq] at hread
  exact hread

/-- A tag whose numbers are short is written as it was read. -/
theorem text_of_read {p : Parts} {t : Tag} (hp : p.IsShort)
    (h : Tag.read ('<' :: (p.text ++ ['>'])) = .ok t) : t.text = '<' :: (p.text ++ ['>']) := by
  obtain ⟨q, hq, htext, hrange, hround⟩ := read_eq_ok_iff.1 h
  rw [content_bracketed] at htext
  obtain rfl := hp.isValid.eq_of_text hq htext
  rw [Tag.text, hround.entrySpeed, hround.displayDuration, hround.exitSpeed, hround.entryDirection,
    hround.exitDirection, hp.entrySpeed.secondsText_eq hrange.entrySpeed,
    hp.displayDuration.secondsText_eq hrange.displayDuration,
    hp.exitSpeed.secondsText_eq hrange.exitSpeed, Parts.text]
  simp only [List.append_assoc, List.cons_append]

/-- Ten seconds in, thirty on display, and a millionth of a second out. -/
def slowParts : Parts where
  entrySpeed := ⟨['1', '0'], []⟩
  entryDirection := .left
  displayDuration := ⟨['3', '0'], []⟩
  exitDirection := .right
  exitSpeed := ⟨['0'], ['0', '0', '0', '0', '0', '1']⟩

example : slowParts.text = "10L30R0.000001".toList := by decide +kernel

theorem isShort_slowParts : slowParts.IsShort where
  entrySpeed := ⟨by decide, by decide, UnsignedNumeral.tenPow_le_value (by decide) (by decide)⟩
  displayDuration := ⟨by decide, by decide, UnsignedNumeral.tenPow_le_value (by decide) (by decide)⟩
  exitSpeed := ⟨by decide, by decide, UnsignedNumeral.tenPow_le_value (by decide) (by decide)⟩

/-- Whole numbers keep their zeros, and the millionth has no power of ten. -/
theorem text_of_read_slowParts :
    slowParts.IsShort ∧ ∃ t, Tag.read ('<' :: (slowParts.text ++ ['>'])) = .ok t ∧
      t.text = '<' :: (slowParts.text ++ ['>']) := by
  have hread : (Tag.read ('<' :: (slowParts.text ++ ['>']))).isOk = true := by decide +kernel
  cases h : Tag.read ('<' :: (slowParts.text ++ ['>'])) with
  | error e =>
    rw [h] at hread
    cases hread
  | ok t => exact ⟨isShort_slowParts, t, rfl, text_of_read isShort_slowParts h⟩

end Tag

end KineticText
