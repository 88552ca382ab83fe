import KineticText.Proofs.Tag.Numeral

/-!
# Reading written numbers

A decimal is written in plain form or with an exponent, and so is a double.
What is written is read as a numeral with the same sign and the same exact value
(`Numeral.exists_read?_plainText`, `Numeral.exists_read?_text`).

There are three groups: the parts of a numeral, the two forms of a decimal, and
text without padding.
-/

namespace KineticText

theorem ne_of_isDigit {c d : Char} (hc : c.isDigit = true) (hd : d.isDigit = false) : c ≠ d := by
  rintro rfl
  rw [hc] at hd
  cases hd

namespace Numeral

/-! ## The parts of a numeral -/

theorem readSign_append (negative : Bool) {s : List Char}
    (hs : ∀ c ∈ s.head?, c ≠ '-' ∧ c ≠ '+') :
    readSign ((if negative then ['-'] else []) ++ s) = (negative, s) := by
  cases negative with
  | true => rfl
  | false =>
    cases s with
    | nil => rfl
    | cons c s =>
      obtain ⟨hminus, hplus⟩ := hs c rfl
      simp only [Bool.false_eq_true, if_false, List.nil_append]
      unfold readSign
      split
      · rename_i heq
        exact absurd (List.cons.inj heq).1 hminus
      · rename_i heq
        exact absurd (List.cons.inj heq).1 hplus
      · rfl

theorem readDigits?_eq_some {s : List Char} (hne : s ≠ []) (hs : ∀ c ∈ s, c.isDigit = true) :
    readDigits? s = some (Nat.ofDigitChars 10 s 0) := by
  have hall : s.all Char.isDigit = true := List.all_eq_true.2 hs
  rw [readDigits?, if_neg (by simp [hne, hall])]

/-- An exponent as it is written, with its sign and with zeros in front. -/
theorem readExponent?_eq_some (z : ℤ) (zeros : ℕ) :
    readExponent? ('e' :: (if z < 0 then '-' else '+') ::
      (List.replicate zeros '0' ++ Nat.toDigits 10 z.natAbs)) = some z := by
  have hdigits : readDigits? (List.replicate zeros '0' ++ Nat.toDigits 10 z.natAbs) =
      some z.natAbs := by
    rw [readDigits?_eq_some (by simp [Nat.toDigits_ne_nil]), Nat.ofDigitChars_append,
      Nat.ofDigitChars_replicate_zero, Nat.mul_zero, Nat.ofDigitChars_ten_toDigits]
    intro c hc
    rcases List.mem_append.1 hc with hzero | hdigit
    · rw [List.eq_of_mem_replicate hzero]
      rfl
    · exact Nat.isDigit_of_mem_toDigits (by decide) (by decide) hdigit
  rw [readExponent?, if_pos (by decide)]
  split_ifs with hz
  · simp only [readSign, hdigits, Option.map_some, if_true, Option.some.injEq]
    omega
  · simp only [readSign, hdigits, Option.map_some, Bool.false_eq_true, if_false, Option.some.injEq]
    omega

/-- A number in front of an exponent, or of nothing. -/
theorem read?_append {n : UnsignedNumeral} (hn : n.IsValid) (negative : Bool) {rest : List Char}
    {e : ℤ} (hrest : ∀ c ∈ rest.head?, c.isDigit = false ∧ c ≠ '.')
    (he : readExponent? rest = some e) :
    read? ((if negative then ['-'] else []) ++ (n.text ++ rest)) =
      some ⟨negative, n.whole, n.fraction, e⟩ := by
  have hstop : ∀ c ∈ rest.head?, c.isDigit = false := fun c hc => (hrest c hc).1
  have hsign : ∀ c ∈ (n.text ++ rest).head?, c ≠ '-' ∧ c ≠ '+' := by
    intro c hc
    rw [List.head?_append_of_ne_nil _ (UnsignedNumeral.text_ne_nil hn)] at hc
    rcases UnsignedNumeral.mem_text hn (List.mem_of_mem_head? hc) with hdigit | rfl
    · exact ⟨ne_of_isDigit hdigit rfl, ne_of_isDigit hdigit rfl⟩
    · decide
  rw [read?, readSign_append negative hsign]
  by_cases hnil : n.fraction = []
  · have htake := takeWhile_run hn.whole_isDigit hstop
    have hdrop := dropWhile_run hn.whole_isDigit hstop
    have hwhole := hn.whole_ne_nil hnil
    obtain ⟨whole, fraction⟩ := n
    simp only at hnil hwhole htake hdrop
    subst hnil
    simp only [UnsignedNumeral.text_of_fraction_nil, htake, hdrop]
    split
    · exact absurd rfl (hrest '.' rfl).2
    · simp [hwhole, he]
  · have hpoint : ∀ c ∈ ('.' :: (n.fraction ++ rest)).head?, c.isDigit = false := by
      simp only [List.head?_cons, Option.mem_some_iff]
      rintro c rfl
      rfl
    have htake := takeWhile_run hn.whole_isDigit hpoint
    have hdrop := dropWhile_run hn.whole_isDigit hpoint
    have htake' := takeWhile_run hn.fraction_isDigit hstop
    have hdrop' := dropWhile_run hn.fraction_isDigit hstop
    rw [UnsignedNumeral.text_of_fraction_ne_nil hnil, List.append_assoc, List.cons_append]
    simp [htake, hdrop, htake', hdrop', hnil, he]

/-! ## The two forms of a decimal -/

/-- An exponent moves the point. -/
theorem value_decimal_exponent (negative : Bool) (whole fraction : List Char) (e : ℤ) :
    (decimal ⟨negative, whole, fraction, e⟩).value =
      (decimal ⟨negative, whole, fraction, 0⟩).value * 10 ^ e := by
  simp only [Decimal.value, decimal]
  rw [mul_assoc, ← zpow_add₀ (by norm_num)]
  congr 2
  omega

theorem value_decimal_unsignedNumeral (d : Decimal) :
    (decimal ⟨d.negative, d.unsignedNumeral.whole, d.unsignedNumeral.fraction, 0⟩).value =
      d.value := by
  have hmagnitude : ({ d with negative := false } : Decimal).unsignedNumeral.decimal.value =
      ({ d with negative := false } : Decimal).value := Decimal.value_unsignedNumeral rfl
  rw [Decimal.value_of_nonneg rfl, Decimal.value_of_nonneg rfl] at hmagnitude
  refine Decimal.value_congr rfl ?_
  rw [decimal, zero_sub]
  exact hmagnitude

/-- A decimal in plain form, with an exponent behind it or without one. -/
theorem read?_plainText_append (d : Decimal) {rest : List Char} {e : ℤ}
    (hrest : ∀ c ∈ rest.head?, c.isDigit = false ∧ c ≠ '.') (he : readExponent? rest = some e) :
    ∃ n, read? (d.plainText ++ rest) = some n ∧ n.decimal.negative = d.negative ∧
      n.decimal.value = d.value * 10 ^ e := by
  refine ⟨⟨d.negative, d.unsignedNumeral.whole, d.unsignedNumeral.fraction, e⟩, ?_, rfl, ?_⟩
  · rw [d.plainText_eq_append, List.append_assoc]
    exact read?_append d.unsignedNumeral_isValid d.negative hrest he
  · rw [value_decimal_exponent, value_decimal_unsignedNumeral]

theorem exists_read?_plainText (d : Decimal) :
    ∃ n, read? d.plainText = some n ∧ n.decimal.negative = d.negative ∧
      n.decimal.value = d.value := by
  have hnil : ∀ c ∈ ([] : List Char).head?, c.isDigit = false ∧ c ≠ '.' := by simp
  obtain ⟨n, hread, hsign, hvalue⟩ :=
    read?_plainText_append d hnil (Eq.refl (readExponent? []))
  rw [List.append_nil] at hread
  rw [zpow_zero, mul_one] at hvalue
  exact ⟨n, hread, hsign, hvalue⟩

/-- With an exponent, the digits stand as those of a decimal with one of them in
front of the point. -/
theorem scientificText_eq (d : Decimal) (mark : Char) (width : ℕ) :
    d.scientificText mark width =
      (⟨d.negative, d.coefficient, -(d.digitCount - 1 : ℕ)⟩ : Decimal).plainText ++
        mark :: (if d.leadingExponent < 0 then '-' else '+') ::
          (List.replicate (width - (Nat.toDigits 10 d.leadingExponent.natAbs).length) '0' ++
            Nat.toDigits 10 d.leadingExponent.natAbs) := by
  have hzero : (-(d.digitCount - 1 : ℕ) : ℤ).toNat = 0 := by omega
  simp only [Decimal.scientificText, Decimal.plainText, hzero, neg_neg, Int.toNat_natCast,
    List.replicate_zero, List.append_nil]
  rfl

theorem exists_read?_scientificText (d : Decimal) (width : ℕ) :
    ∃ n, read? (d.scientificText 'e' width) = some n ∧ n.decimal.negative = d.negative ∧
      n.decimal.value = d.value := by
  have hcount : 0 < d.digitCount := Nat.length_toDigits_pos
  have hmark : ∀ c ∈ ('e' :: (if d.leadingExponent < 0 then '-' else '+') ::
      (List.replicate (width - (Nat.toDigits 10 d.leadingExponent.natAbs).length) '0' ++
        Nat.toDigits 10 d.leadingExponent.natAbs)).head?, c.isDigit = false ∧ c ≠ '.' := by
    rintro c ⟨⟩
    decide
  rw [scientificText_eq]
  obtain ⟨n, hread, hsign, hvalue⟩ := read?_plainText_append
    ⟨d.negative, d.coefficient, -(d.digitCount - 1 : ℕ)⟩ hmark (readExponent?_eq_some ..)
  refine ⟨n, hread, hsign, hvalue.trans ?_⟩
  simp only [Decimal.value, Decimal.leadingExponent]
  rw [mul_assoc, ← zpow_add₀ (by norm_num)]
  congr 2
  omega

/-- The text of a finite double is read as a numeral of its sign and of the exact
value of its written decimal. -/
theorem exists_read?_text (negative : Bool) (m : Magnitude) :
    ∃ n, read? (Binary64.finite negative m).text = some n ∧ n.decimal.negative = negative ∧
      n.decimal.value = (Binary64.writtenDecimal negative m).value := by
  have hsign := Binary64.writtenDecimal_negative negative m
  rw [Binary64.text]
  split_ifs
  · obtain ⟨n, hread, hnegative, hvalue⟩ :=
      exists_read?_plainText (Binary64.writtenDecimal negative m)
    exact ⟨n, hread, hnegative.trans hsign, hvalue⟩
  · obtain ⟨n, hread, hnegative, hvalue⟩ :=
      exists_read?_scientificText (Binary64.writtenDecimal negative m) 2
    exact ⟨n, hread, hnegative.trans hsign, hvalue⟩

end Numeral

/-! ## Text without padding -/

theorem Text.trim_eq_self {p : Char → Bool} {s : List Char} (h : ∀ c ∈ s, p c = false) :
    Text.trim p s = s := by
  have hdrop {s : List Char} (h : ∀ c ∈ s, p c = false) : s.dropWhile p = s := by
    cases s with
    | nil => rfl
    | cons c s => rw [List.dropWhile_cons_of_neg (by simp [h c])]
  rw [Text.trim, hdrop h, hdrop fun c hc => h c (List.mem_reverse.1 hc), List.reverse_reverse]

namespace Numeral

/-- The characters of numbers without a power of ten. -/
def IsPlainChar (c : Char) : Prop := c.isDigit = true ∨ c = '-' ∨ c = '.'


section Plain

variable {c : Char} {s : List Char}

/-- There are twelve of them, so what holds of each can be computed. -/
theorem IsPlainChar.of_all {p : Char → Bool} (hp : "0123456789-.".toList.all p = true)
    (h : IsPlainChar c) : p c = true := by
  refine List.all_eq_true.1 hp c ?_
  rcases h with hdigit | rfl | rfl
  · rcases isDigit_iff.1 hdigit with rfl | rfl | rfl | rfl | rfl | rfl | rfl | rfl | rfl | rfl <;>
      decide
  · decide
  · decide

theorem IsPlainChar.isPadding_eq_false (h : IsPlainChar c) : Text.isPadding c = false := by
  simpa using h.of_all (p := fun d => !Text.isPadding d) (by decide +kernel)

theorem IsPlainChar.isBlank_eq_false (h : IsPlainChar c) : Text.isBlank c = false := by
  simpa using h.of_all (p := fun d => !Text.isBlank d) (by decide +kernel)

theorem IsPlainChar.toWesternDigit_eq (h : IsPlainChar c) : Text.toWesternDigit c = c := by
  simpa using h.of_all (p := fun d => Text.toWesternDigit d == d) (by decide +kernel)

theorem IsPlainChar.ne_underscore (h : IsPlainChar c) : c ≠ '_' := by
  rintro rfl
  exact absurd h (by simp [IsPlainChar])

theorem IsPlainChar.toLower_ne (h : IsPlainChar c) : c.toLower ≠ 'n' := by
  simpa using h.of_all (p := fun d => d.toLower != 'n') (by decide +kernel)

theorem dropUnderscores?_eq_self (h : ∀ c ∈ s, c ≠ '_') (afterDigit : Bool) :
    dropUnderscores? afterDigit s = some s := by
  induction s generalizing afterDigit with
  | nil => rfl
  | cons c s ih =>
    rw [dropUnderscores?, if_neg (h c (by simp)), ih fun d hd => h d (by simp [hd])]
    rfl

theorem plain?_eq_self (h : ∀ c ∈ s, IsPlainChar c) : plain? s = some s := by
  have hdigits : s.map Text.toWesternDigit = s :=
    (List.map_congr_left fun c hc => (h c hc).toWesternDigit_eq).trans (List.map_id s)
  rw [plain?, Text.trim_eq_self fun c hc => (h c hc).isPadding_eq_false, hdigits]
  exact dropUnderscores?_eq_self (fun c hc => (h c hc).ne_underscore) false

theorem mem_of_mem_readSign (h : c ∈ (readSign s).2) : c ∈ s := by
  unfold readSign at h
  split at h
  · exact List.mem_cons_of_mem _ h
  · exact List.mem_cons_of_mem _ h
  · exact h

end Plain

end Numeral

/-- A number without padding and underscores is none of the names. -/
theorem Binary64.read?_eq_map {s : List Char} (h : ∀ c ∈ s, Numeral.IsPlainChar c) :
    Binary64.read? s = (Numeral.read? s).map (·.decimal.toBinary64) := by
  have hname (name : String) (hn : 'n' ∈ name.toList) :
      String.ofList ((Numeral.readSign s).2.map Char.toLower) ≠ name := by
    rintro rfl
    rw [String.toList_ofList] at hn
    obtain ⟨c, hc, hn⟩ := List.mem_map.1 hn
    exact (h c (Numeral.mem_of_mem_readSign hc)).toLower_ne hn
  have hinf := hname "inf" (by decide)
  have hinfinity := hname "infinity" (by decide)
  have hnan := hname "nan" (by decide)
  simp only [Binary64.read?, Numeral.plain?_eq_self h, Option.bind_eq_bind, Option.bind_some, hinf,
    hinfinity, hnan, decide_false, Bool.or_false, Bool.false_eq_true, if_false]

end KineticText
