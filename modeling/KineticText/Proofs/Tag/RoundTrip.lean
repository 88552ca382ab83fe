import KineticText.Proofs.Number.Written
import KineticText.Proofs.Tag.Bracket
import KineticText.Proofs.Tag.Language

/-!
# Writing and reading a tag

A tag is written with the shortest decimals of its times, without a power of
ten, and is read back as the same tag (`read_text`).  Times that are whole
numbers come back as doubles of the same value; times that are doubles come
back bit for bit, so that a tag which was read once is written and read
without a change (`read_text_of_read`).

There are three groups: the times, the text of a tag, and reading it back.
-/

namespace KineticText

/-! ## The times -/

/-- The same number, and the same double if it is one. -/
structure Quantity.SameTime (q r : Quantity) : Prop where
  value_eq : q.value = r.value
  eq_of_real : ∀ x, r = .real x → q = .real x

/-- A time in range is a finite number of at most 28 digits. -/
theorem Quantity.exists_decimal {f : NumberField} {q : Quantity} (h : q.inRange f.limit = true) :
    ∃ d : Decimal, q.toDecimal? = some d ∧ d.inRange f.limit = true ∧ d.coefficient < 10 ^ 28 := by
  unfold inRange at h
  cases hd : q.toDecimal? with
  | none => simp [hd] at h
  | some d =>
    simp only [hd] at h
    obtain ⟨hpos, hle, -⟩ := Tag.inRange_iff.1 h
    have hlimit : (f.limit : ℚ) < 10 ^ 28 := by
      cases f <;> norm_num [NumberField.limit]
    refine ⟨d, rfl, h, q.toDecimal?_coefficient_lt hd ?_⟩
    rw [abs_of_pos hpos]
    exact hle.trans_lt hlimit

/-- A time in range is written as a numeral in range, with the same double. -/
theorem Quantity.exists_numeral {f : NumberField} {q : Quantity} (h : q.inRange f.limit = true) :
    ∃ n : UnsignedNumeral, n.IsValid ∧ q.seconds.secondsText = n.text ∧
      n.decimal.inRange f.limit = true ∧ n.decimal.toBinary64 = q.toBinary64 := by
  obtain ⟨d, hd, hrange, hdigits⟩ := exists_decimal h
  obtain ⟨hpos, hle, hdouble⟩ := Tag.inRange_iff.1 hrange
  obtain ⟨n, hn, htext, hvalue⟩ := Decimal.secondsText_eq hpos hdigits
  have hbinary : n.decimal.toBinary64 = d.toBinary64 := by
    refine Decimal.toBinary64_congr (by rw [hvalue]) ?_
    rw [Decimal.negative_eq_false_of_pos hpos, Decimal.negative_eq_false_of_pos (hvalue ▸ hpos)]
  refine ⟨n, hn, ?_, ?_, hbinary.trans (q.toBinary64_toDecimal? hd)⟩
  · rw [seconds, hd, Option.getD_some, htext]
  · rw [Tag.inRange_iff, hvalue, hbinary]
    exact ⟨hpos, hle, hdouble⟩

theorem Quantity.sameTime_rounded {f : NumberField} {q : Quantity}
    (h : q.inRange f.limit = true) : (real q.toBinary64).SameTime q := by
  refine ⟨?_, by rintro x rfl; rfl⟩
  cases q with
  | whole i =>
    obtain ⟨hpos, hle, -⟩ := Tag.inRange_iff.1 h
    rw [Decimal.value_ofInt] at hpos hle
    have hpos' : 0 < i := by exact_mod_cast hpos
    have hle' : i ≤ f.limit := by exact_mod_cast hle
    have hlimit : f.limit ≤ 30 := by cases f <;> decide
    exact Binary64.value_ofInt (by omega)
  | real x => rfl
  | truth b => simp [inRange, toDecimal?] at h

namespace Tag

/-- The same directions and the same times. -/
structure Agrees (t' t : Tag) : Prop where
  entrySpeed : t'.entrySpeed.SameTime t.entrySpeed
  entryDirection : t'.entryDirection = t.entryDirection
  displayDuration : t'.displayDuration.SameTime t.displayDuration
  exitDirection : t'.exitDirection = t.exitDirection
  exitSpeed : t'.exitSpeed.SameTime t.exitSpeed

/-! ## The text of a tag -/

/-- A text of parts is made of digits, points and letters of directions. -/
theorem Parts.forall_mem_text {P : Char → Prop} {p : Parts} (hp : p.IsValid)
    (hdigit : ∀ c : Char, c.isDigit = true → P c) (hpoint : P '.')
    (hletter : ∀ d : Direction, P d.letter) : ∀ c ∈ p.text, P c := by
  have hnumeral {n : UnsignedNumeral} (hn : n.IsValid) : ∀ c ∈ n.text, P c := by
    intro c hc
    rcases UnsignedNumeral.mem_text hn hc with hc | rfl
    · exact hdigit c hc
    · exact hpoint
  simp only [text, List.forall_mem_append, List.forall_mem_cons]
  exact ⟨hnumeral hp.entrySpeed, hletter _, hnumeral hp.displayDuration, hletter _,
    hnumeral hp.exitSpeed⟩

theorem Parts.close_not_mem_text {p : Parts} (hp : p.IsValid) : '>' ∉ p.text := by
  have hchars : ∀ c ∈ p.text, c ≠ '>' := by
    refine forall_mem_text hp ?_ (by decide) fun d => by cases d <;> decide
    rintro _ hdigit rfl
    exact absurd hdigit (by decide)
  exact fun hmem => hchars '>' hmem rfl

/-- A tag is written as parts in range between brackets, with its directions
and the doubles of its times. -/
structure Parts.Spell (p : Parts) (t : Tag) : Prop where
  isValid : p.IsValid
  text_eq : t.text = '<' :: (p.text ++ ['>'])
  inRange : p.InRange
  entrySpeed : p.entrySpeed.decimal.toBinary64 = t.entrySpeed.toBinary64
  entryDirection : p.entryDirection = t.entryDirection
  displayDuration : p.displayDuration.decimal.toBinary64 = t.displayDuration.toBinary64
  exitDirection : p.exitDirection = t.exitDirection
  exitSpeed : p.exitSpeed.decimal.toBinary64 = t.exitSpeed.toBinary64

theorem exists_parts_of_text (t : Tag) : ∃ p : Parts, p.Spell t := by
  obtain ⟨n₁, hn₁, htext₁, hrange₁, hdouble₁⟩ := Quantity.exists_numeral t.entrySpeed_inRange
  obtain ⟨n₂, hn₂, htext₂, hrange₂, hdouble₂⟩ := Quantity.exists_numeral t.displayDuration_inRange
  obtain ⟨n₃, hn₃, htext₃, hrange₃, hdouble₃⟩ := Quantity.exists_numeral t.exitSpeed_inRange
  refine ⟨⟨n₁, t.entryDirection, n₂, t.exitDirection, n₃⟩, ⟨hn₁, hn₂, hn₃⟩, ?_,
    ⟨hrange₁, hrange₂, hrange₃⟩, hdouble₁, rfl, hdouble₂, rfl, hdouble₃⟩
  simp [Tag.text, Parts.text, htext₁, htext₂, htext₃]

theorem content_bracketed (s : List Char) : content ('<' :: (s ++ ['>'])) = s := by
  simp [content]

/-- The text of a tag has its only close bracket at its end. -/
theorem exists_inner_of_text (t : Tag) :
    ∃ s : List Char, '>' ∉ s ∧ t.text = '<' :: (s ++ ['>']) := by
  obtain ⟨p, hp⟩ := t.exists_parts_of_text
  exact ⟨p.text, Parts.close_not_mem_text hp.isValid, hp.text_eq⟩

theorem isBracketed_text (t : Tag) : isBracketed t.text = true := by
  obtain ⟨s, hs, htext⟩ := t.exists_inner_of_text
  rw [htext]
  exact isBracketed_of_not_mem hs

/-! ## Reading it back -/

/-- A tag reads back as the same tag. -/
theorem read_text (t : Tag) : ∃ t', Tag.read t.text = .ok t' ∧ t'.Agrees t := by
  obtain ⟨p, hp⟩ := t.exists_parts_of_text
  obtain ⟨t', ht'⟩ := Parts.exists_rounds hp.inRange
  have hcontent : content t.text = p.text := by
    rw [hp.text_eq, content_bracketed]
  refine ⟨t', read_eq_ok_iff.2 ⟨p, hp.isValid, hcontent, hp.inRange, ht'⟩, ?_⟩
  constructor
  · rw [ht'.entrySpeed, hp.entrySpeed]
    exact Quantity.sameTime_rounded t.entrySpeed_inRange
  · exact ht'.entryDirection.trans hp.entryDirection
  · rw [ht'.displayDuration, hp.displayDuration]
    exact Quantity.sameTime_rounded t.displayDuration_inRange
  · exact ht'.exitDirection.trans hp.exitDirection
  · rw [ht'.exitSpeed, hp.exitSpeed]
    exact Quantity.sameTime_rounded t.exitSpeed_inRange

theorem Agrees.eq_of_read {raw : List Char} {t t' : Tag} (h : t'.Agrees t)
    (hread : Tag.read raw = .ok t) : t' = t := by
  obtain ⟨p, -, -, -, ht⟩ := read_eq_ok_iff.1 hread
  have h₁ := h.entrySpeed.eq_of_real _ ht.entrySpeed
  have h₂ := h.displayDuration.eq_of_real _ ht.displayDuration
  have h₃ := h.exitSpeed.eq_of_real _ ht.exitSpeed
  rw [← ht.entrySpeed] at h₁
  rw [← ht.displayDuration] at h₂
  rw [← ht.exitSpeed] at h₃
  have hentry := h.entryDirection
  have hexit := h.exitDirection
  cases t
  cases t'
  simp only at h₁ h₂ h₃ hentry hexit
  subst h₁ h₂ h₃ hentry hexit
  rfl

/-- A tag that was read is written and read without a change. -/
theorem read_text_of_read {raw : List Char} {t : Tag} (h : Tag.read raw = .ok t) :
    Tag.read t.text = .ok t := by
  obtain ⟨t', hread, hagrees⟩ := t.read_text
  rw [hread, hagrees.eq_of_read h]

/-- The text in which a tag is written again after it was read. -/
def normalText (raw : List Char) : Except TagError (List Char) := (Tag.read raw).map Tag.text

/-- Normal texts are their own normal texts. -/
theorem normalText_bind (raw : List Char) : (normalText raw >>= normalText) = normalText raw := by
  unfold normalText
  cases h : Tag.read raw with
  | error e => rfl
  | ok t =>
    show normalText t.text = .ok t.text
    rw [normalText, read_text_of_read h]
    rfl

/-- Reading undoes writing on every tag, and a text that spells a tag has a
normal form. -/
theorem read_undoes_text (t : Tag) :
    isBracketed t.text = true ∧
      (∃ t', Tag.read t.text = .ok t' ∧ t'.Agrees t) ∧
      ∀ raw, (normalText raw >>= normalText) = normalText raw :=
  ⟨t.isBracketed_text, t.read_text, normalText_bind⟩

end Tag

end KineticText
