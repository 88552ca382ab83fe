import KineticText.Proofs.Datum.Number
import KineticText.Proofs.Outcome
import KineticText.Proofs.Tag.Numeral

/-!
# The language of tags

`Tag.readDatum` reads a tag in two passes and checks the ranges twice, first
on the numbers as they are written and then on the doubles nearest to them.
This module says which values it accepts, without scanning and without passes.

There are five groups.

* The parts.  `Parts.read_eq_ok_iff`: the first pass inverts `Parts.text`.
* The ranges.  `inRange_iff` states the range check on exact numbers, and
  `inRange_toBinary64` shows that what passes it passes it again as a double.
* Reading.  `read_eq_ok_iff` puts the passes together.
* The language.  A `Spelling` is the text of a tag cut into five pieces, each
  described by a pattern and its exact value.
* Rejections.  Every other value is rejected (`readDatum_accepts_spellings`),
  but for one with a number in it that cannot be shown (`readDatum_tenPow`).
-/

namespace KineticText

namespace Tag

/-! ## The parts -/

theorem ofLetter?_eq_some_iff {c : Char} {d : Direction} :
    Direction.ofLetter? c = some d ↔ c = d.letter := by
  constructor
  · intro h
    unfold Direction.ofLetter? at h
    split_ifs at h <;> simp only [Option.some.injEq] at h <;> subst h <;> assumption
  · rintro rfl
    cases d <;> rfl

/-- No letter of a direction continues a number. -/
theorem letter_not_digit (d : Direction) : d.letter.isDigit = false ∧ d.letter ≠ '.' := by
  cases d <;> decide

theorem takeNumber_eq_ok_iff {f : NumberField} {s rest : List Char} {n : UnsignedNumeral} :
    takeNumber f s = .ok (n, rest) ↔ UnsignedNumeral.scan? s = some (n, rest) := by
  unfold takeNumber
  cases UnsignedNumeral.scan? s <;> simp

theorem takeDirection_eq_ok_iff {f : DirectionField} {s rest : List Char} {d : Direction} :
    takeDirection f s = .ok (d, rest) ↔ s = d.letter :: rest := by
  cases s with
  | nil => simp [takeDirection]
  | cons c s =>
    rw [takeDirection, List.cons.injEq, ← ofLetter?_eq_some_iff]
    cases Direction.ofLetter? c <;> simp

/-- The numbers of the parts hold digits as they should. -/
structure Parts.IsValid (p : Parts) : Prop where
  entrySpeed : p.entrySpeed.IsValid
  displayDuration : p.displayDuration.IsValid
  exitSpeed : p.exitSpeed.IsValid

theorem takeNumber_text (f : NumberField) {n : UnsignedNumeral} (hn : n.IsValid) {rest : List Char}
    (hrest : ∀ c ∈ rest.head?, c.isDigit = false ∧ c ≠ '.') :
    takeNumber f (n.text ++ rest) = .ok (n, rest) :=
  takeNumber_eq_ok_iff.2 (UnsignedNumeral.scan?_text hn hrest)

/-- Reading the parts inverts writing them. -/
theorem Parts.read_eq_ok_iff {s : List Char} {p : Parts} :
    Parts.read s = .ok p ↔ p.IsValid ∧ s = p.text := by
  constructor
  · intro h
    unfold Parts.read at h
    split_ifs at h
    simp only [bind_eq_ok_iff, Prod.exists] at h
    obtain ⟨entrySpeed, s₁, h₁, entryDirection, s₂, h₂, displayDuration, s₃, h₃,
      exitDirection, s₄, h₄, exitSpeed, s₅, h₅, h⟩ := h
    obtain ⟨hentry, rfl⟩ := UnsignedNumeral.eq_of_scan?_eq_some (takeNumber_eq_ok_iff.1 h₁)
    obtain rfl := takeDirection_eq_ok_iff.1 h₂
    obtain ⟨hdisplay, rfl⟩ := UnsignedNumeral.eq_of_scan?_eq_some (takeNumber_eq_ok_iff.1 h₃)
    obtain rfl := takeDirection_eq_ok_iff.1 h₄
    obtain ⟨hexit, rfl⟩ := UnsignedNumeral.eq_of_scan?_eq_some (takeNumber_eq_ok_iff.1 h₅)
    split_ifs at h with hend
    obtain rfl := List.isEmpty_iff.1 hend
    cases h
    exact ⟨⟨hentry, hdisplay, hexit⟩, by simp [Parts.text]⟩
  · intro hparts
    obtain ⟨hp, rfl⟩ := hparts
    have hletter (d : Direction) (rest : List Char) :
        ∀ c ∈ (d.letter :: rest).head?, c.isDigit = false ∧ c ≠ '.' := by
      simp only [List.head?_cons, Option.mem_some_iff]
      rintro c rfl
      exact letter_not_digit d
    have hdirection (f : DirectionField) (d : Direction) (rest : List Char) :
        takeDirection f (d.letter :: rest) = .ok (d, rest) := takeDirection_eq_ok_iff.2 rfl
    have hend : takeNumber .exitSpeed p.exitSpeed.text = .ok (p.exitSpeed, []) := by
      have hnil : takeNumber .exitSpeed (p.exitSpeed.text ++ []) = .ok (p.exitSpeed, []) :=
        takeNumber_text .exitSpeed hp.exitSpeed (by simp)
      rwa [List.append_nil] at hnil
    rw [Parts.read, if_neg (by simp [Parts.text])]
    simp only [Parts.text, bind, Except.bind, takeNumber_text _ hp.entrySpeed (hletter _ _),
      takeNumber_text _ hp.displayDuration (hletter _ _), hend, hdirection, List.isEmpty_nil,
      if_true]
    rfl

/-! ## The ranges -/

/-- A decimal is in range if its exact number is, and its double is positive. -/
theorem inRange_iff {limit : ℕ} {d : Decimal} :
    d.inRange limit = true ↔ 0 < d.value ∧ d.value ≤ limit ∧ (0 : Binary64) < d.toBinary64 := by
  simp only [Decimal.inRange, Bool.and_eq_true, Bool.not_eq_true', decide_eq_true_eq,
    decide_eq_false_iff_not, Decimal.lt_iff_value, Decimal.value_ofInt, not_lt]
  norm_num [and_assoc]

/-- A whole number is a magnitude and is written as it is, by its units and its
written decimal. -/
theorem magnitudeAt_and_value_of_units {n : ℕ} {m : Magnitude}
    (hunits : unitsAt m.rank = n * twoPow 1074)
    (hwritten : Binary64.writtenDecimal false m = ⟨false, n * 10, -1⟩) :
    magnitudeAt m.rank = n ∧ (Binary64.writtenDecimal false m).value = n := by
  constructor
  · rw [magnitudeAt, hunits, Nat.cast_mul, cast_twoPow, mul_div_assoc,
      div_self (by positivity), mul_one]
  · rw [hwritten, Decimal.value_of_nonneg rfl, Nat.cast_mul, zpow_neg_one, Nat.cast_ofNat,
      mul_assoc, mul_inv_cancel₀ (by norm_num), mul_one]

/-- The limit of a field is a double, and is written as it is. -/
theorem exists_limit (f : NumberField) :
    ∃ m : Magnitude, magnitudeAt m.rank = f.limit ∧
      (Binary64.writtenDecimal false m).value = f.limit := by
  have hten := magnitudeAt_and_value_of_units (n := 10) (m := ⟨0x4024000000000000, by decide⟩)
    (by decide +kernel) (by decide +kernel)
  have hthirty := magnitudeAt_and_value_of_units (n := 30) (m := ⟨0x403e000000000000, by decide⟩)
    (by decide +kernel) (by decide +kernel)
  cases f with
  | entrySpeed => exact ⟨_, hten⟩
  | displayDuration => exact ⟨_, hthirty⟩
  | exitSpeed => exact ⟨_, hten⟩

/-- The double of a decimal in range is finite, and its rank is not above that
of the limit. -/
theorem toBinary64_of_inRange {f : NumberField} {d : Decimal} (h : d.inRange f.limit = true) :
    ∃ m : Magnitude, 0 < m.rank ∧ d.toBinary64 = .finite false m ∧ IsNearestRank d.value m.rank := by
  obtain ⟨hpos, hle, hdouble⟩ := inRange_iff.1 h
  obtain ⟨limit, hlimit, -⟩ := exists_limit f
  obtain ⟨rank, hrank, hd⟩ := d.toBinary64_eq
  rw [abs_of_pos hpos] at hrank
  rw [Decimal.negative_eq_false_of_pos hpos] at hd
  have hbound : rank ≤ limit.rank :=
    hrank.mono (isNearestRank_magnitudeAt limit.rank) (hlimit ▸ hle)
  have hfinite : rank < rankLimit := hbound.trans_lt limit.rank_lt
  refine ⟨⟨rank, hfinite⟩, ?_, hd.trans (Binary64.ofRank_rank false ⟨rank, hfinite⟩), hrank⟩
  exact (Decimal.zero_lt_toBinary64 hrank hpos).1 hdouble

/-- A decimal in range stays in range as a double. -/
theorem inRange_toBinary64 {f : NumberField} {d : Decimal} (h : d.inRange f.limit = true) :
    (Quantity.real d.toBinary64).inRange f.limit = true := by
  obtain ⟨m, hm, hd, hrank⟩ := toBinary64_of_inRange h
  obtain ⟨limit, hlimit, hlimitWritten⟩ := exists_limit f
  have hnear := Binary64.isNearestRank_writtenDecimal false m
  have hnonneg : 0 ≤ (Binary64.writtenDecimal false m).value := by
    rw [Decimal.value_of_nonneg (Binary64.writtenDecimal_negative false m)]
    positivity
  rw [abs_of_nonneg hnonneg] at hnear
  rw [hd]
  show (Binary64.writtenDecimal false m).inRange f.limit = true
  rw [inRange_iff]
  refine ⟨lt_of_le_of_ne hnonneg fun hzero => ?_, ?_, ?_⟩
  · -- Zero is nearest to the rank of zero only.
    rw [← hzero] at hnear
    have := hnear.unique (magnitudeAt_zero ▸ isNearestRank_magnitudeAt 0)
    omega
  · -- Only the limit itself rounds to the limit from above.
    by_contra hgt
    have hge : limit.rank ≤ m.rank :=
      (isNearestRank_magnitudeAt limit.rank).mono hnear (hlimit ▸ (not_le.1 hgt).le)
    have hle : m.rank ≤ limit.rank :=
      hrank.mono (isNearestRank_magnitudeAt limit.rank) (hlimit ▸ (inRange_iff.1 h).2.1)
    have heq : m = limit := by
      cases m
      cases limit
      simpa using le_antisymm hle hge
    rw [heq, hlimitWritten] at hgt
    exact hgt le_rfl
  · rw [Binary64.toBinary64_writtenDecimal, ← Binary64.ofRank_rank, Binary64.zero_lt_ofRank]
    exact ⟨rfl, hm⟩

/-- The three numbers of the parts are in range. -/
structure Parts.InRange (p : Parts) : Prop where
  entrySpeed : p.entrySpeed.decimal.inRange NumberField.entrySpeed.limit = true
  displayDuration : p.displayDuration.decimal.inRange NumberField.displayDuration.limit = true
  exitSpeed : p.exitSpeed.decimal.inRange NumberField.exitSpeed.limit = true

/-- A tag is made of the doubles nearest to the three numbers. -/
structure Parts.Rounds (p : Parts) (t : Tag) : Prop where
  entrySpeed : t.entrySpeed = .real p.entrySpeed.decimal.toBinary64
  entryDirection : t.entryDirection = p.entryDirection
  displayDuration : t.displayDuration = .real p.displayDuration.decimal.toBinary64
  exitDirection : t.exitDirection = p.exitDirection
  exitSpeed : t.exitSpeed = .real p.exitSpeed.decimal.toBinary64

theorem checkRange_eq_ok_iff {f : NumberField} {n : UnsignedNumeral} {u : Unit} :
    checkRange f n = .ok u ↔ n.decimal.inRange f.limit = true := by
  unfold checkRange
  split_ifs with h <;> simp [h]

theorem Parts.checkRanges_eq_ok_iff {p : Parts} : p.checkRanges = .ok () ↔ p.InRange := by
  simp only [checkRanges, bind_eq_ok_iff, checkRange_eq_ok_iff, exists_const]
  exact ⟨fun ⟨h₁, h₂, h₃⟩ => ⟨h₁, h₂, h₃⟩, fun h => ⟨h.1, h.2, h.3⟩⟩

theorem accept_eq_ok_iff {f : NumberField} {q : Quantity}
    {r : { q : Quantity // q.inRange f.limit = true }} : f.accept q = .ok r ↔ r.1 = q := by
  obtain ⟨r, hr⟩ := r
  unfold NumberField.accept
  split_ifs with h
  · simp only [Except.ok.injEq, Subtype.mk.injEq]
    exact eq_comm
  · simp only [false_iff]
    rintro rfl
    exact h hr

theorem Parts.tag_eq_ok_iff {p : Parts} {t : Tag} : p.tag = .ok t ↔ p.Rounds t := by
  simp only [Parts.tag, bind_eq_ok_iff, accept_eq_ok_iff, Subtype.exists]
  constructor
  · intro hfields
    obtain ⟨_, _, rfl, _, _, rfl, _, _, rfl, h⟩ := hfields
    cases h
    exact ⟨rfl, rfl, rfl, rfl, rfl⟩
  · intro hrounds
    obtain ⟨h₁, h₂, h₃, h₄, h₅⟩ := hrounds
    obtain ⟨entrySpeed, entryDirection, displayDuration, exitDirection, exitSpeed, _, _, _⟩ := t
    simp only at h₁ h₂ h₃ h₄ h₅
    subst h₁ h₂ h₃ h₄ h₅
    exact ⟨_, by assumption, rfl, _, by assumption, rfl, _, by assumption, rfl, rfl⟩

/-- What passes the range checks as written is accepted as doubles. -/
theorem Parts.exists_rounds {p : Parts} (h : p.InRange) : ∃ t, p.Rounds t :=
  ⟨⟨_, p.entryDirection, _, p.exitDirection, _, inRange_toBinary64 h.entrySpeed,
    inRange_toBinary64 h.displayDuration, inRange_toBinary64 h.exitSpeed⟩, rfl, rfl, rfl, rfl, rfl⟩

/-! ## Reading -/

/-- A text spells a tag if its content is that of parts in range, whose
numbers the tag rounds. -/
theorem read_eq_ok_iff {raw : List Char} {t : Tag} :
    Tag.read raw = .ok t ↔
      ∃ p : Parts, p.IsValid ∧ content raw = p.text ∧ p.InRange ∧ p.Rounds t := by
  simp only [Tag.read, bind_eq_ok_iff, Parts.read_eq_ok_iff, Parts.tag_eq_ok_iff]
  constructor
  · intro hread
    obtain ⟨p, ⟨hp, htext⟩, ⟨⟩, hrange, hround⟩ := hread
    exact ⟨p, hp, htext, Parts.checkRanges_eq_ok_iff.1 hrange, hround⟩
  · intro hparts
    obtain ⟨p, hp, htext, hrange, hround⟩ := hparts
    exact ⟨p, ⟨hp, htext⟩, (), Parts.checkRanges_eq_ok_iff.2 hrange, hround⟩

/-! ## The language -/

/-- A number of seconds as it is written: it matches the pattern, its exact
value is positive and not above the limit, and the double nearest to it is not
zero. -/
structure IsTime (limit : ℕ) (n : List Char) : Prop where
  matches_pattern : n ∈ numberPattern.matches'
  pos : 0 < numberValue n
  le : numberValue n ≤ limit
  nearest_ne_zero : ¬Binary64.IsNearest (numberValue n) 0

/-- The range check on a numeral, in terms of its text. -/
theorem isTime_text_iff {limit : ℕ} {n : UnsignedNumeral} (hn : n.IsValid) :
    IsTime limit n.text ↔ n.decimal.inRange limit = true := by
  have hvalue := UnsignedNumeral.numberValue_text hn
  have hzero : (0 : Binary64) = .ofRank false 0 := Binary64.zero_eq
  obtain ⟨rank, hrank, hdouble⟩ := n.decimal.toBinary64_eq
  have hnearest (hpos : 0 < n.decimal.value) :
      ¬Binary64.IsNearest n.decimal.value 0 ↔ (0 : Binary64) < n.decimal.toBinary64 := by
    have hsign : decide (n.decimal.value < 0) = false := decide_eq_false hpos.not_gt
    rw [abs_of_pos hpos] at hrank
    rw [Decimal.zero_lt_toBinary64 hrank hpos, Nat.pos_iff_ne_zero, not_iff_not]
    constructor
    · intro hnear
      obtain ⟨rank', hrank', hx⟩ := hnear
      rw [abs_of_pos hpos] at hrank'
      rw [hsign] at hx
      have hranks := congrArg Binary64.rank hx
      rw [hzero, Binary64.rank_ofRank, Binary64.rank_ofRank, hrank'.unique hrank] at hranks
      have : 0 < rankLimit := by decide
      omega
    · rintro rfl
      exact ⟨0, by rwa [abs_of_pos hpos], by rw [hsign, hzero]⟩
  rw [inRange_iff]
  constructor
  · intro h
    obtain ⟨-, hpos, hle, hne⟩ := h
    rw [hvalue] at hpos hle hne
    exact ⟨hpos, hle, (hnearest hpos).1 hne⟩
  · intro hrange
    obtain ⟨hpos, hle, hlt⟩ := hrange
    refine ⟨mem_numberPattern_iff.2 ⟨n, hn, rfl⟩, ?_, ?_, ?_⟩
    · rw [hvalue]
      exact hpos
    · rw [hvalue]
      exact hle
    · rw [hvalue]
      exact (hnearest hpos).2 hlt

theorem isNearest_text {limit : ℕ} {n : UnsignedNumeral} (hn : n.IsValid)
    (hrange : n.decimal.inRange limit = true) :
    Binary64.IsNearest (numberValue n.text) n.decimal.toBinary64 := by
  rw [UnsignedNumeral.numberValue_text hn]
  refine Decimal.isNearest_toBinary64 ?_
  exact (decide_eq_false (inRange_iff.1 hrange).1.not_gt).symm

/-- The text of a tag in five pieces. -/
structure Spelling where
  entrySpeed : List Char
  entryDirection : Direction
  displayDuration : List Char
  exitDirection : Direction
  exitSpeed : List Char

namespace Spelling

/-- The pieces one behind the other. -/
def text (s : Spelling) : List Char :=
  s.entrySpeed ++ s.entryDirection.letter ::
    (s.displayDuration ++ s.exitDirection.letter :: s.exitSpeed)

/-- The three numbers are numbers of seconds, up to ten, thirty and ten. -/
structure IsTag (s : Spelling) : Prop where
  entrySpeed : IsTime 10 s.entrySpeed
  displayDuration : IsTime 30 s.displayDuration
  exitSpeed : IsTime 10 s.exitSpeed

/-- The tag has the directions and the doubles nearest to the numbers. -/
structure IsSpellingOf (s : Spelling) (t : Tag) : Prop where
  entrySpeed : ∃ x, Binary64.IsNearest (numberValue s.entrySpeed) x ∧ t.entrySpeed = .real x
  entryDirection : t.entryDirection = s.entryDirection
  displayDuration :
    ∃ x, Binary64.IsNearest (numberValue s.displayDuration) x ∧ t.displayDuration = .real x
  exitDirection : t.exitDirection = s.exitDirection
  exitSpeed : ∃ x, Binary64.IsNearest (numberValue s.exitSpeed) x ∧ t.exitSpeed = .real x

end Spelling

/-- The spelling that parts are written as. -/
def Parts.spelling (p : Parts) : Spelling where
  entrySpeed := p.entrySpeed.text
  entryDirection := p.entryDirection
  displayDuration := p.displayDuration.text
  exitDirection := p.exitDirection
  exitSpeed := p.exitSpeed.text

theorem Parts.isTag_spelling_iff {p : Parts} (hp : p.IsValid) :
    p.spelling.IsTag ↔ p.InRange := by
  constructor
  · intro htag
    obtain ⟨h₁, h₂, h₃⟩ := htag
    exact ⟨(isTime_text_iff hp.entrySpeed).1 h₁, (isTime_text_iff hp.displayDuration).1 h₂,
      (isTime_text_iff hp.exitSpeed).1 h₃⟩
  · intro hrange
    obtain ⟨h₁, h₂, h₃⟩ := hrange
    exact ⟨(isTime_text_iff hp.entrySpeed).2 h₁, (isTime_text_iff hp.displayDuration).2 h₂,
      (isTime_text_iff hp.exitSpeed).2 h₃⟩

theorem Parts.isSpellingOf {p : Parts} {t : Tag} (hp : p.IsValid) (hrange : p.InRange)
    (h : p.Rounds t) : p.spelling.IsSpellingOf t where
  entrySpeed := ⟨_, isNearest_text hp.entrySpeed hrange.entrySpeed, h.entrySpeed⟩
  entryDirection := h.entryDirection
  displayDuration :=
    ⟨_, isNearest_text hp.displayDuration hrange.displayDuration, h.displayDuration⟩
  exitDirection := h.exitDirection
  exitSpeed := ⟨_, isNearest_text hp.exitSpeed hrange.exitSpeed, h.exitSpeed⟩

theorem Spelling.IsTag.exists_parts {s : Spelling} (h : s.IsTag) :
    ∃ p : Parts, p.IsValid ∧ p.spelling = s := by
  obtain ⟨n₁, hn₁, h₁⟩ := mem_numberPattern_iff.1 h.entrySpeed.matches_pattern
  obtain ⟨n₂, hn₂, h₂⟩ := mem_numberPattern_iff.1 h.displayDuration.matches_pattern
  obtain ⟨n₃, hn₃, h₃⟩ := mem_numberPattern_iff.1 h.exitSpeed.matches_pattern
  refine ⟨⟨n₁, s.entryDirection, n₂, s.exitDirection, n₃⟩, ⟨hn₁, hn₂, hn₃⟩, ?_⟩
  rw [Parts.spelling, ← h₁, ← h₂, ← h₃]

/-- The text between the brackets of a text that begins and ends with them,
and any other text as it is. -/
def inner (raw : List Char) : List Char :=
  if 2 ≤ raw.length ∧ raw.head? = some '<' ∧ raw.getLast? = some '>' then raw.tail.dropLast
  else raw

theorem content_eq_inner (raw : List Char) : content raw = inner raw := by
  cases raw with
  | nil => rfl
  | cons c rest =>
    by_cases hc : c = '<'
    · subst hc
      cases rest with
      | nil => rfl
      | cons d rest => simp [content, inner]
    · have hcontent : content (c :: rest) = c :: rest := by
        rw [content]
        rintro rest' ⟨⟩
        exact hc rfl
      rw [hcontent, inner, if_neg]
      simp [hc]

/-- A data value spells a tag if it is a text whose inner text is one. -/
def Spells (v : Datum) (s : Spelling) : Prop :=
  ∃ raw, v = .text raw ∧ inner raw.toList = s.text ∧ s.IsTag

theorem readDatum_text_eq_ok_iff {raw : String} {t : Tag} :
    readDatum (.text raw) = .ok t ↔ read raw.toList = .ok t :=
  mapError_eq_ok_iff

theorem exists_tag_of_spells {v : Datum} {s : Spelling} (h : Spells v s) :
    ∃ t, readDatum v = .ok t ∧ s.IsSpellingOf t := by
  obtain ⟨raw, rfl, htext, hs⟩ := h
  obtain ⟨p, hp, rfl⟩ := hs.exists_parts
  have hrange := (Parts.isTag_spelling_iff hp).1 hs
  obtain ⟨t, ht⟩ := Parts.exists_rounds hrange
  refine ⟨t, readDatum_text_eq_ok_iff.2 (read_eq_ok_iff.2 ⟨p, hp, ?_, hrange, ht⟩),
    Parts.isSpellingOf hp hrange ht⟩
  rw [content_eq_inner]
  exact htext

theorem exists_spelling_of_read {v : Datum} {t : Tag} (h : readDatum v = .ok t) :
    ∃ s, Spells v s := by
  cases v with
  | text raw =>
    obtain ⟨p, hp, htext, hrange, -⟩ := read_eq_ok_iff.1 (readDatum_text_eq_ok_iff.1 h)
    rw [content_eq_inner] at htext
    exact ⟨p.spelling, raw, rfl, htext, (Parts.isTag_spelling_iff hp).2 hrange⟩
  | _ => cases h

theorem Parts.exists_tag_of_checkRanges {p : Parts} (h : p.checkRanges = .ok ()) :
    ∃ t, p.tag = .ok t := by
  obtain ⟨t, ht⟩ := Parts.exists_rounds (Parts.checkRanges_eq_ok_iff.1 h)
  exact ⟨t, Parts.tag_eq_ok_iff.2 ht⟩

/-! ## Rejections -/

/-- What is no text is rejected, if the rejection can show it. -/
theorem readDatum_of_not_text {v : Datum} (h : ∀ raw, v ≠ .text raw) :
    readDatum v = .error (if v.hasInspection then .fault (.tag (.notText v.inspect))
      else .impossibleValue) := by
  cases v with
  | text raw => exact absurd rfl (h raw)
  | _ => rfl

/-- A value that can be inspected is a tag, or is rejected as one. -/
theorem ends_readDatum {v : Datum} (h : v.hasInspection = true) :
    Ends (fun _ => True) (fun f => ∃ e, f = .fault (.tag e)) (readDatum v) := by
  by_cases htext : ∃ raw, v = .text raw
  · obtain ⟨raw, rfl⟩ := htext
    show Ends _ _ ((read raw.toList).mapError (Failure.fault ∘ Fault.tag))
    cases read raw.toList with
    | ok t => trivial
    | error e => exact ⟨e, rfl⟩
  · push Not at htext
    rw [readDatum_of_not_text htext, if_pos h]
    exact ⟨_, rfl⟩

/-- The rejection of a value that cannot be inspected fails itself. -/
theorem readDatum_of_not_hasInspection {v : Datum} (h : v.hasInspection = false) :
    readDatum v = .error .impossibleValue := by
  rw [readDatum_of_not_text, h]
  · rfl
  · rintro raw rfl
    cases h

theorem validate_of_ok {v : Datum} {t : Tag} (h : readDatum v = .ok t) :
    validate v = .ok (true, none) := by
  rw [validate, h]

theorem validate_of_rejected {v : Datum} {e : TagError} (h : readDatum v = .error (.fault (.tag e))) :
    validate v = .ok (false, some e.message) := by
  rw [validate, h]

theorem validate_of_not_hasInspection {v : Datum} (h : v.hasInspection = false) :
    validate v = .error .impossibleValue := by
  rw [validate, readDatum_of_not_hasInspection h]

/-- A data value is read as a tag exactly if it spells one, and then as the
tag of the doubles nearest to its numbers; what passes the first range check
passes the second one.  Every other value is rejected as a tag and found
invalid, unless a whole number with too many digits stands in it: then it has
no rejection, and its check has no answer. -/
theorem readDatum_accepts_spellings (v : Datum) :
    ((∃ t, readDatum v = .ok t) ↔ ∃ s, Spells v s) ∧
      (∀ s, Spells v s → ∃ t, readDatum v = .ok t ∧ s.IsSpellingOf t) ∧
      (∀ p : Parts, p.checkRanges = .ok () → ∃ t, p.tag = .ok t) ∧
      ((∃ e, readDatum v = .error (.fault (.tag e))) ↔
        (¬∃ s, Spells v s) ∧ ¬∃ w : Datum, w.Within v ∧ w.IsUnshown) ∧
      (readDatum v = .error .impossibleValue ↔ ∃ w : Datum, w.Within v ∧ w.IsUnshown) ∧
      ((∃ message, validate v = .ok (true, message)) ↔ ∃ s, Spells v s) ∧
      ((∃ message, validate v = .ok (false, message)) ↔
        (¬∃ s, Spells v s) ∧ ¬∃ w : Datum, w.Within v ∧ w.IsUnshown) ∧
      (validate v = .error .impossibleValue ↔ ∃ w : Datum, w.Within v ∧ w.IsUnshown) := by
  have haccept : (∃ t, readDatum v = .ok t) ↔ ∃ s, Spells v s := by
    constructor
    · intro hread
      obtain ⟨t, ht⟩ := hread
      exact exists_spelling_of_read ht
    · intro hspells
      obtain ⟨s, hs⟩ := hspells
      obtain ⟨t, ht, -⟩ := exists_tag_of_spells hs
      exact ⟨t, ht⟩
  refine ⟨haccept, fun s hs => exists_tag_of_spells hs,
    fun p hp => Parts.exists_tag_of_checkRanges hp, ?_⟩
  rw [← haccept, ← Datum.hasInspection_eq_false_iff]
  cases hshown : v.hasInspection with
  | false => simp [readDatum_of_not_hasInspection hshown, validate_of_not_hasInspection hshown]
  | true =>
    rcases (ends_readDatum hshown).ok_or_error with ⟨t, ht, -⟩ | ⟨_, hread, e, rfl⟩
    · simp [ht, validate_of_ok ht]
    · simp [hread, validate_of_rejected hread]

/-- A number without a digit in front of its point, and one at the limit. -/
theorem readDatum_accepts_spellings_limit :
    ∃ s t, Spells (.text "<10L.1R0.5>") s ∧ readDatum (.text "<10L.1R0.5>") = .ok t ∧
      s.IsSpellingOf t := by
  have hdirection : (readDatum (.text "<10L.1R0.5>")).map Tag.entryDirection = .ok .left := by
    decide +kernel
  obtain ⟨t, ht, -⟩ := map_eq_ok_iff.1 hdirection
  obtain ⟨haccept, hspelling, -⟩ := readDatum_accepts_spellings (.text "<10L.1R0.5>")
  obtain ⟨s, hs⟩ := haccept.1 ⟨t, ht⟩
  obtain ⟨t', ht', hof⟩ := hspelling s hs
  exact ⟨s, t', hs, ht', hof⟩

/-- A whole number of 4301 digits spells no tag.  It is not rejected as one, and
its check has no answer. -/
theorem readDatum_tenPow :
    (¬∃ s, Spells (.int (tenPow 4300)) s) ∧
      (¬∃ e, readDatum (.int (tenPow 4300)) = .error (.fault (.tag e))) ∧
      ¬∃ answer, validate (.int (tenPow 4300)) = .ok answer := by
  have hshown : (Datum.int (tenPow 4300)).hasInspection = false := by decide +kernel
  refine ⟨?_, ?_, ?_⟩
  · rintro ⟨s, raw, ⟨⟩, -⟩
  · rw [readDatum_of_not_hasInspection hshown]
    rintro ⟨e, ⟨⟩⟩
  · rw [validate_of_not_hasInspection hshown]
    rintro ⟨answer, ⟨⟩⟩

end Tag

end KineticText
