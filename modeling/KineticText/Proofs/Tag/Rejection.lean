import KineticText.Proofs.Tag.Language

/-!
# Rejected tags

A tag that is rejected is reported by a field and a text.  This module says which
ones, without scanning and without passes (`Tag.read_rejects_iff`).

The content is matched from left to right against the five fields of `template`.
A number takes the longest text of the form `[0-9]*([.][0-9]*)?` and must end in
a digit, a direction takes its letter (`Field.Takes`).  The first field that can
take nothing is reported, with the text in front of the next letter of a direction
in place of a number (`Field.Shows`).  The ranges count only where all fields have
matched and no text is left.

There are six groups: runs, fields, what fields take, whole contents, the ranges,
and reports.
-/

namespace KineticText

namespace Tag

/-! ## Runs -/

open RegularExpression in
/-- `[0-9]*([.][0-9]*)?` -/
def runPattern : RegularExpression Char :=
  star digitPattern * (1 + char '.' * star digitPattern)

/-- The longest text that a text begins with and the pattern matches. -/
structure IsLongestRun (s run : List Char) : Prop where
  isPrefix : run <+: s
  matches_pattern : run ∈ runPattern.matches'
  longest : ∀ t, t <+: s → t ∈ runPattern.matches' → t.length ≤ run.length

def EndsInDigit (run : List Char) : Prop := ∃ c ∈ run.getLast?, c.isDigit = true

/-- The digits a text begins with, and behind them a point and its digits. -/
def longestRun (s : List Char) : List Char :=
  s.takeWhile Char.isDigit ++
    match s.dropWhile Char.isDigit with
    | '.' :: tail => '.' :: tail.takeWhile Char.isDigit
    | _ => []

theorem IsLongestRun.unique {s run run' : List Char} (h : IsLongestRun s run)
    (h' : IsLongestRun s run') : run = run' := by
  have hlength : run.length = run'.length :=
    le_antisymm (h'.longest run h.isPrefix h.matches_pattern)
      (h.longest run' h'.isPrefix h'.matches_pattern)
  exact (List.prefix_of_prefix_length_le h.isPrefix h'.isPrefix hlength.le).eq_of_length hlength

theorem mem_runPattern_iff {s : List Char} : s ∈ runPattern.matches' ↔
    (∀ c ∈ s, c.isDigit = true) ∨ ∃ whole fraction, (∀ c ∈ whole, c.isDigit = true) ∧
      (∀ c ∈ fraction, c.isDigit = true) ∧ s = whole ++ '.' :: fraction := by
  simp only [runPattern, RegularExpression.matches'_mul, RegularExpression.matches'_add,
    RegularExpression.matches'_epsilon, Language.mem_mul, Language.mem_add, Language.mem_one,
    mem_char_iff, mem_star_digitPattern_iff]
  constructor
  · rintro ⟨whole, hwhole, _, rfl | ⟨_, rfl, fraction, hfraction, rfl⟩, rfl⟩
    · exact .inl (by simpa using hwhole)
    · exact .inr ⟨whole, fraction, hwhole, hfraction, by simp⟩
  · rintro (hs | ⟨whole, fraction, hwhole, hfraction, rfl⟩)
    · exact ⟨s, hs, [], .inl rfl, by simp⟩
    · exact ⟨whole, hwhole, '.' :: fraction, .inr ⟨['.'], rfl, fraction, hfraction, rfl⟩, rfl⟩

/-- Digits that a text begins with are among all those it begins with. -/
theorem length_le_takeWhile {run s : List Char} (hfront : run <+: s)
    (hrun : ∀ c ∈ run, c.isDigit = true) : run.length ≤ (s.takeWhile Char.isDigit).length := by
  obtain ⟨rest, rfl⟩ := hfront
  rw [List.takeWhile_append_of_pos hrun, List.length_append]
  exact Nat.le_add_right _ _

theorem longestRun_cases (s : List Char) :
    (∃ tail, s.dropWhile Char.isDigit = '.' :: tail ∧
      longestRun s = s.takeWhile Char.isDigit ++ '.' :: tail.takeWhile Char.isDigit) ∨
    (∀ tail, s.dropWhile Char.isDigit ≠ '.' :: tail) ∧ longestRun s = s.takeWhile Char.isDigit := by
  unfold longestRun
  split
  next tail htail => exact .inl ⟨tail, htail, rfl⟩
  next hpoint => exact .inr ⟨hpoint, List.append_nil _⟩

/-- A point ends the digits in front of it. -/
theorem split_at_point {whole : List Char} (hwhole : ∀ c ∈ whole, c.isDigit = true)
    (rest : List Char) : (whole ++ '.' :: rest).takeWhile Char.isDigit = whole ∧
      (whole ++ '.' :: rest).dropWhile Char.isDigit = '.' :: rest := by
  have hpoint : ∀ c ∈ ('.' :: rest).head?, c.isDigit = false := by
    simp only [List.head?_cons, Option.mem_some_iff]
    rintro c rfl
    rfl
  exact ⟨takeWhile_run hwhole hpoint, dropWhile_run hwhole hpoint⟩

theorem isLongestRun_longestRun (s : List Char) : IsLongestRun s (longestRun s) := by
  have hsplit : s.takeWhile Char.isDigit ++ s.dropWhile Char.isDigit = s :=
    List.takeWhile_append_dropWhile
  have hdigits (t : List Char) : ∀ c ∈ t.takeWhile Char.isDigit, c.isDigit = true :=
    fun c hc => List.mem_takeWhile_imp hc
  rcases longestRun_cases s with ⟨tail, htail, hrun⟩ | ⟨hpoint, hrun⟩
  · rw [hrun]
    refine ⟨?_, mem_runPattern_iff.2 (.inr ⟨_, _, hdigits s, hdigits tail, rfl⟩), ?_⟩
    · rw [htail] at hsplit
      conv_rhs => rw [← hsplit]
      simpa using List.takeWhile_prefix Char.isDigit
    · intro t ht hmatch
      rcases mem_runPattern_iff.1 hmatch with ht' | ⟨whole, fraction, hwhole, hfraction, rfl⟩
      · exact (length_le_takeWhile ht ht').trans (by simp)
      · obtain ⟨rest, rfl⟩ := ht
        rw [List.append_assoc, List.cons_append] at htail ⊢
        obtain ⟨htake, hdrop⟩ := split_at_point hwhole (fraction ++ rest)
        obtain rfl := List.tail_eq_of_cons_eq (hdrop.symm.trans htail)
        have hle := length_le_takeWhile (List.prefix_append fraction rest) hfraction
        simpa [htake] using hle
  · rw [hrun]
    refine ⟨List.takeWhile_prefix _, mem_runPattern_iff.2 (.inl (hdigits s)), ?_⟩
    intro t ht hmatch
    rcases mem_runPattern_iff.1 hmatch with ht' | ⟨whole, fraction, hwhole, hfraction, rfl⟩
    · exact length_le_takeWhile ht ht'
    · obtain ⟨rest, rfl⟩ := ht
      rw [List.append_assoc, List.cons_append] at hpoint
      exact absurd (split_at_point hwhole (fraction ++ rest)).2 (hpoint _)

theorem endsInDigit_append (front : List Char) {digits : List Char} (hne : digits ≠ [])
    (hdigits : ∀ c ∈ digits, c.isDigit = true) : EndsInDigit (front ++ digits) := by
  refine ⟨digits.getLast hne, ?_, hdigits _ (List.getLast_mem hne)⟩
  rw [List.getLast?_append, List.getLast?_eq_some_getLast hne]
  rfl

theorem endsInDigit_text {n : UnsignedNumeral} (hn : n.IsValid) : EndsInDigit n.text := by
  by_cases hnil : n.fraction = []
  · rw [UnsignedNumeral.text_of_fraction_nil hnil]
    exact endsInDigit_append [] (hn.whole_ne_nil hnil) hn.whole_isDigit
  · rw [UnsignedNumeral.text_of_fraction_ne_nil hnil, List.append_cons]
    exact endsInDigit_append _ hnil hn.fraction_isDigit

/-- A scan takes the longest run, if that ends in a digit, and else nothing. -/
theorem scan?_cases (s : List Char) :
    (∃ n rest, UnsignedNumeral.scan? s = some (n, rest) ∧ n.text = longestRun s) ∨
      UnsignedNumeral.scan? s = none ∧ ¬EndsInDigit (longestRun s) := by
  rcases longestRun_cases s with ⟨tail, htail, hrun⟩ | ⟨hpoint, hrun⟩
  · by_cases hfraction : tail.takeWhile Char.isDigit = []
    · right
      simp [UnsignedNumeral.scan?, htail, hrun, hfraction, EndsInDigit]
    · left
      simp only [UnsignedNumeral.scan?, htail, hrun, List.isEmpty_iff, hfraction, if_false]
      exact ⟨_, _, rfl, UnsignedNumeral.text_of_fraction_ne_nil hfraction⟩
  · have hscan : UnsignedNumeral.scan? s = if s.takeWhile Char.isDigit = [] then none
        else some (⟨s.takeWhile Char.isDigit, []⟩, s.dropWhile Char.isDigit) := by
      unfold UnsignedNumeral.scan?
      split
      next tail htail => exact absurd htail (hpoint tail)
      next => simp
    by_cases hwhole : s.takeWhile Char.isDigit = []
    · right
      simp [hscan, hrun, hwhole, EndsInDigit]
    · left
      rw [hscan, if_neg hwhole, hrun]
      exact ⟨_, _, rfl, UnsignedNumeral.text_of_fraction_nil rfl⟩

/-! ## Fields -/

/-- A field of a tag, which holds a number or a direction. -/
inductive Field where
  | number (f : NumberField)
  | direction (f : DirectionField)

def Field.key : Field → String
  | number f => f.key
  | direction f => f.key

/-- The fields of a tag, in order. -/
def template : List Field :=
  [.number .entrySpeed, .direction .entry, .number .displayDuration, .direction .exit,
   .number .exitSpeed]

/-- What a field takes off the front of a text: a number the longest run, which
must end in a digit, and a direction its letter. -/
inductive Field.Takes : Field → List Char → List Char → Prop
  | number {f : NumberField} {s taken : List Char} (hrun : IsLongestRun s taken)
    (hend : EndsInDigit taken) : (Field.number f).Takes s taken
  | direction {f : DirectionField} (d : Direction) (rest : List Char) :
    (Field.direction f).Takes (d.letter :: rest) [d.letter]

/-- What a field that takes nothing off a text is reported with: a number with the
text in front of the next letter of a direction, or with that letter if there is
nothing in front of it, and a direction with one character. -/
inductive Field.Shows : Field → List Char → List Char → Prop
  | nothing {f : Field} : f.Shows [] []
  | run {f : NumberField} {run rest : List Char} (hne : run ≠ [])
    (hrun : ∀ c ∈ run, ∀ d : Direction, c ≠ d.letter)
    (hrest : ∀ c ∈ rest.head?, ∃ d : Direction, c = d.letter) :
    (Field.number f).Shows (run ++ rest) run
  | letter {f : NumberField} (d : Direction) (rest : List Char) :
    (Field.number f).Shows (d.letter :: rest) [d.letter]
  | character {f : DirectionField} (c : Char) (rest : List Char) :
    (Field.direction f).Shows (c :: rest) [c]

/-- Fields match the front of a text: each takes its part of what the fields
before it have left.  The last text is what all of them have left. -/
inductive Matches : List Field → List Char → List (List Char) → List Char → Prop
  | nil (s : List Char) : Matches [] s [] s
  | cons {f : Field} {fields : List Field} {taken s rest : List Char} {parts : List (List Char)}
    (htakes : f.Takes (taken ++ s) taken) (hrest : Matches fields s parts rest) :
    Matches (f :: fields) (taken ++ s) (taken :: parts) rest

/-- The first number of the parts that is no time in its range. -/
inductive FirstOutside : List (Field × List Char) → NumberField → List Char → Prop
  | here {f : NumberField} {n : List Char} {parts : List (Field × List Char)}
    (h : ¬IsTime f.limit n) : FirstOutside ((.number f, n) :: parts) f n
  | number {f g : NumberField} {n m : List Char} {parts : List (Field × List Char)}
    (h : IsTime f.limit n) (hrest : FirstOutside parts g m) :
    FirstOutside ((.number f, n) :: parts) g m
  | direction {f : DirectionField} {g : NumberField} {n m : List Char}
    {parts : List (Field × List Char)} (hrest : FirstOutside parts g m) :
    FirstOutside ((.direction f, n) :: parts) g m

/-- The field and the text that a content is rejected with.  The ranges count only
where all five fields have matched the whole content. -/
inductive Reports (content : List Char) : String → List Char → Prop
  | empty (h : content = []) : Reports content "syntax" []
  /-- The first field that takes nothing, behind those that have matched. -/
  | field {before after : List Field} {f : Field} {parts : List (List Char)}
    {value rest : List Char} (hne : content ≠ []) (htemplate : template = before ++ f :: after)
    (hbefore : Matches before content parts (value ++ rest))
    (hfails : ∀ taken, ¬f.Takes (value ++ rest) taken) (hshows : f.Shows (value ++ rest) value) :
    Reports content f.key value
  | trailing {parts : List (List Char)} {value : List Char}
    (hmatches : Matches template content parts value) (hne : value ≠ []) :
    Reports content "syntax" value
  | range {parts : List (List Char)} {f : NumberField} {value : List Char}
    (hmatches : Matches template content parts [])
    (hfirst : FirstOutside (template.zip parts) f value) : Reports content f.key value

/-! ## What fields take -/

/-- Takes the part of a field off a text. -/
def Field.take : Field → List Char → Except TagError (List Char × List Char)
  | number f, s => (takeNumber f s).map fun (n, rest) => (n.text, rest)
  | direction f, s => (takeDirection f s).map fun (d, rest) => ([d.letter], rest)

/-- Takes the parts of fields off a text, one after another. -/
def takeFields : List Field → List Char → Except TagError (List (List Char) × List Char)
  | [], s => .ok ([], s)
  | f :: fields, s => do
    let (taken, s) ← f.take s
    let (parts, rest) ← takeFields fields s
    return (taken :: parts, rest)

variable {f : Field} {fields : List Field} {s t taken rest value : List Char}
  {parts : List (List Char)} {e : TagError}

theorem takes_number_iff {f : NumberField} :
    (Field.number f).Takes s taken ↔ taken = longestRun s ∧ EndsInDigit taken := by
  constructor
  · rintro ⟨hrun, hend⟩
    exact ⟨hrun.unique (isLongestRun_longestRun s), hend⟩
  · rintro ⟨rfl, hend⟩
    exact .number (isLongestRun_longestRun s) hend

theorem takes_direction_iff {f : DirectionField} :
    (Field.direction f).Takes s taken ↔
      ∃ (d : Direction) (rest : List Char), s = d.letter :: rest ∧ taken = [d.letter] := by
  constructor
  · rintro ⟨⟩
    exact ⟨_, _, rfl, rfl⟩
  · rintro ⟨d, rest, rfl, rfl⟩
    exact .direction d rest

theorem Field.take_eq_ok_iff :
    f.take s = .ok (taken, rest) ↔ s = taken ++ rest ∧ f.Takes s taken := by
  cases f with
  | number f =>
    simp only [take, map_eq_ok_iff, Prod.exists, takeNumber_eq_ok_iff, Prod.mk.injEq,
      takes_number_iff]
    constructor
    · rintro ⟨n, _, hscan, rfl, rfl⟩
      obtain ⟨hn, hs⟩ := UnsignedNumeral.eq_of_scan?_eq_some hscan
      refine ⟨hs, ?_, endsInDigit_text hn⟩
      rcases scan?_cases s with ⟨n', rest', hscan', hrun⟩ | ⟨hnone, -⟩
      · cases hscan.symm.trans hscan'
        exact hrun
      · cases hscan.symm.trans hnone
    · rintro ⟨hs, rfl, hend⟩
      rcases scan?_cases s with ⟨n, rest', hscan, hrun⟩ | ⟨-, hnot⟩
      · have hs' := (UnsignedNumeral.eq_of_scan?_eq_some hscan).2
        rw [hrun] at hs'
        exact ⟨n, rest', hscan, hrun, List.append_cancel_left (hs'.symm.trans hs)⟩
      · exact absurd hend hnot
  | direction f =>
    simp only [take, map_eq_ok_iff, Prod.exists, takeDirection_eq_ok_iff, Prod.mk.injEq,
      takes_direction_iff]
    constructor
    · rintro ⟨d, rest, rfl, rfl, rfl⟩
      exact ⟨rfl, d, rest, rfl, rfl⟩
    · rintro ⟨hs, d, rest', rfl, rfl⟩
      exact ⟨d, rest', rfl, rfl, (List.cons.inj hs).2⟩

/-- A field fails on a text from which it can take nothing. -/
theorem Field.exists_take_eq_error_iff :
    (∃ e, f.take s = .error e) ↔ ∀ taken, ¬f.Takes s taken := by
  have hsplit {taken : List Char} (htakes : f.Takes s taken) : ∃ rest, s = taken ++ rest := by
    cases htakes with
    | number hrun _ => exact hrun.isPrefix.imp fun _ => Eq.symm
    | direction d rest => exact ⟨rest, rfl⟩
  cases htake : f.take s with
  | ok found =>
    obtain ⟨taken, rest⟩ := found
    exact iff_of_false (by simp) fun hnot => hnot taken (take_eq_ok_iff.1 htake).2
  | error e =>
    refine iff_of_true ⟨e, rfl⟩ fun taken htakes => ?_
    obtain ⟨rest, hs⟩ := hsplit htakes
    rw [take_eq_ok_iff.2 ⟨hs, htakes⟩] at htake
    cases htake

theorem isNone_ofLetter?_iff {c : Char} :
    (Direction.ofLetter? c).isNone = true ↔ ∀ d : Direction, c ≠ d.letter := by
  simp only [Option.isNone_iff_eq_none, Option.eq_none_iff_forall_ne_some, ne_eq,
    ofLetter?_eq_some_iff]

theorem isNone_ofLetter?_eq_false_iff {c : Char} :
    (Direction.ofLetter? c).isNone = false ↔ ∃ d : Direction, c = d.letter := by
  rw [← Bool.not_eq_true, isNone_ofLetter?_iff]
  simp

theorem shows_number_iff {f : NumberField} : (Field.number f).Shows s value ↔ value = badRun s := by
  constructor
  · intro h
    cases h with
    | nothing => rfl
    | run hne hrun hrest =>
      have htake := takeWhile_run (fun c hc => isNone_ofLetter?_iff.2 (hrun c hc))
        (fun c hc => isNone_ofLetter?_eq_false_iff.2 (hrest c hc))
      unfold badRun
      rw [htake]
      cases value with
      | nil => exact absurd rfl hne
      | cons c run => rfl
    | letter d rest => cases d <;> rfl
  · rintro rfl
    unfold badRun
    split
    next hnil =>
      cases s with
      | nil => exact .nothing
      | cons c rest =>
        have hletter : (Direction.ofLetter? c).isNone = false := by
          simpa [Option.isSome_iff_ne_none] using hnil
        obtain ⟨d, rfl⟩ := isNone_ofLetter?_eq_false_iff.1 hletter
        exact .letter d rest
    next hne =>
      have hrun : ∀ c ∈ s.takeWhile fun c => (Direction.ofLetter? c).isNone,
          ∀ d : Direction, c ≠ d.letter :=
        fun c hc => isNone_ofLetter?_iff.1
          (List.mem_takeWhile_imp (p := fun c => (Direction.ofLetter? c).isNone) hc)
      have hrest : ∀ c ∈ (s.dropWhile fun c => (Direction.ofLetter? c).isNone).head?,
          ∃ d : Direction, c = d.letter := by
        intro c hc
        have hstop := List.head?_dropWhile_not (fun c => (Direction.ofLetter? c).isNone) s
        rw [hc] at hstop
        exact isNone_ofLetter?_eq_false_iff.1 hstop
      have hshows := Field.Shows.run (f := f) hne hrun hrest
      rwa [List.takeWhile_append_dropWhile] at hshows

theorem shows_direction_iff {f : DirectionField} :
    (Field.direction f).Shows s value ↔ value = s.take 1 := by
  constructor
  · rintro (_ | _)
    · rfl
    · rfl
  · rintro rfl
    cases s with
    | nil => exact .nothing
    | cons c rest => exact .character c rest

theorem takeNumber_eq_error {f : NumberField} (h : takeNumber f s = .error e) :
    e = .number f (badRun s) := by
  unfold takeNumber at h
  cases hscan : UnsignedNumeral.scan? s with
  | some found => simp [hscan] at h
  | none =>
    rw [hscan] at h
    exact (Except.error.inj h).symm

theorem takeDirection_eq_error {f : DirectionField} (h : takeDirection f s = .error e) :
    e = .direction f (s.take 1) := by
  cases s with
  | nil => exact (Except.error.inj h).symm
  | cons c rest =>
    unfold takeDirection at h
    cases hletter : Direction.ofLetter? c with
    | some d => simp [hletter] at h
    | none =>
      simp only [hletter] at h
      exact (Except.error.inj h).symm

/-- A failure names its field, with the text that the field shows. -/
theorem Field.of_take_eq_error (h : f.take s = .error e) :
    e.field = f.key ∧ (e.value = value ↔ f.Shows s value) := by
  cases f with
  | number f =>
    obtain rfl := takeNumber_eq_error (map_eq_error_iff.1 h)
    exact ⟨rfl, eq_comm.trans shows_number_iff.symm⟩
  | direction f =>
    obtain rfl := takeDirection_eq_error (map_eq_error_iff.1 h)
    exact ⟨rfl, eq_comm.trans shows_direction_iff.symm⟩

theorem Field.take_eq_error_iff {key : String} :
    (∃ e, f.take s = .error e ∧ e.field = key ∧ e.value = value) ↔
      (∀ taken, ¬f.Takes s taken) ∧ f.key = key ∧ f.Shows s value := by
  rw [← exists_take_eq_error_iff]
  constructor
  · rintro ⟨e, he, rfl, hvalue⟩
    obtain ⟨hfield, hshows⟩ := of_take_eq_error he
    exact ⟨⟨e, he⟩, hfield.symm, hshows.1 hvalue⟩
  · rintro ⟨⟨e, he⟩, rfl, hvalue⟩
    obtain ⟨hfield, hshows⟩ := of_take_eq_error he
    exact ⟨e, he, hfield, hshows.2 hvalue⟩

theorem takeFields_eq_ok_iff :
    takeFields fields s = .ok (parts, rest) ↔ Matches fields s parts rest := by
  induction fields generalizing s parts rest with
  | nil =>
    constructor
    · rintro ⟨⟩
      exact .nil _
    · rintro ⟨⟩
      rfl
  | cons f fields ih =>
    simp only [takeFields, bind_eq_ok_iff, Prod.exists, Field.take_eq_ok_iff, ih]
    constructor
    · rintro ⟨taken, s, ⟨rfl, htakes⟩, parts, _, hrest, ⟨⟩⟩
      exact .cons htakes hrest
    · rintro ⟨⟩
      next htakes hrest => exact ⟨_, _, ⟨rfl, htakes⟩, _, _, hrest, rfl⟩

/-- Fields stop at one that cannot be taken, behind others that match. -/
theorem takeFields_eq_error_iff : takeFields fields s = .error e ↔
    ∃ before f after parts rest, fields = before ++ f :: after ∧ Matches before s parts rest ∧
      f.take rest = .error e := by
  induction fields generalizing s with
  | nil => exact iff_of_false (by rintro ⟨⟩) (by simp)
  | cons f fields ih =>
    simp only [takeFields, bind_eq_error_iff, Prod.exists, Field.take_eq_ok_iff, ih]
    constructor
    · rintro (he | ⟨taken, s, ⟨rfl, htakes⟩, ⟨before, g, after, parts, rest, rfl, hbefore, he⟩ |
          ⟨parts, rest, -, ⟨⟩⟩⟩)
      · exact ⟨[], f, fields, [], s, rfl, .nil s, he⟩
      · exact ⟨f :: before, g, after, taken :: parts, rest, rfl, .cons htakes hbefore, he⟩
    · rintro ⟨before, g, after, parts, rest, hfields, hbefore, he⟩
      cases hbefore with
      | nil s =>
        obtain ⟨rfl, rfl⟩ := List.cons.inj hfields
        exact .inl he
      | cons htakes hrest =>
        obtain ⟨rfl, rfl⟩ := List.cons.inj hfields
        exact .inr ⟨_, _, ⟨rfl, htakes⟩, .inl ⟨_, g, after, _, rest, rfl, hrest, he⟩⟩

/-! ## Whole contents -/

/-- The texts of the parts, in order. -/
def Parts.pieces (p : Parts) : List (List Char) :=
  [p.entrySpeed.text, [p.entryDirection.letter], p.displayDuration.text, [p.exitDirection.letter],
   p.exitSpeed.text]

/-- Reading the parts takes the five fields, and nothing may be left. -/
theorem Parts.read_pieces (s : List Char) : (Parts.read s).map pieces =
    if s = [] then .error .empty
    else takeFields template s >>= fun (parts, rest) =>
      if rest = [] then .ok parts else .error (.trailing rest) := by
  by_cases hs : s = []
  · subst hs
    rfl
  rw [Parts.read, if_neg (by simpa using hs), if_neg hs]
  simp only [template, takeFields, Field.take, bind, Except.bind, Except.map]
  cases takeNumber .entrySpeed s with
  | error e => rfl
  | ok entrySpeed =>
  obtain ⟨entrySpeed, s⟩ := entrySpeed
  dsimp only
  cases takeDirection .entry s with
  | error e => rfl
  | ok entryDirection =>
  obtain ⟨entryDirection, s⟩ := entryDirection
  dsimp only
  cases takeNumber .displayDuration s with
  | error e => rfl
  | ok displayDuration =>
  obtain ⟨displayDuration, s⟩ := displayDuration
  dsimp only
  cases takeDirection .exit s with
  | error e => rfl
  | ok exitDirection =>
  obtain ⟨exitDirection, s⟩ := exitDirection
  dsimp only
  cases takeNumber .exitSpeed s with
  | error e => rfl
  | ok exitSpeed =>
  obtain ⟨exitSpeed, s⟩ := exitSpeed
  cases s with
  | nil => rfl
  | cons c rest => rfl

theorem Matches.ne_nil (h : Matches template s parts rest) : s ≠ [] := by
  rintro rfl
  generalize hs : ([] : List Char) = s at h
  obtain - | ⟨htakes, -⟩ := h
  obtain ⟨rfl, -⟩ := List.append_eq_nil_iff.1 hs.symm
  obtain ⟨-, c, ⟨⟩, -⟩ := takes_number_iff.1 htakes

theorem Parts.exists_read_iff :
    (∃ p, Parts.read s = .ok p ∧ p.pieces = parts) ↔ Matches template s parts [] := by
  rw [← map_eq_ok_iff, read_pieces, ← takeFields_eq_ok_iff]
  split_ifs with hs
  · refine iff_of_false (by simp) fun hmatches => ?_
    exact (takeFields_eq_ok_iff.1 hmatches).ne_nil hs
  · simp only [bind_eq_ok_iff, Prod.exists]
    constructor
    · rintro ⟨parts, rest, htake, h⟩
      split_ifs at h with hrest
      cases h
      rwa [hrest] at htake
    · exact fun htake => ⟨parts, [], htake, rfl⟩

theorem Parts.read_eq_error_iff : Parts.read s = .error e ↔
    s = [] ∧ e = .empty ∨ s ≠ [] ∧ (takeFields template s = .error e ∨
      ∃ parts rest, Matches template s parts rest ∧ rest ≠ [] ∧ e = .trailing rest) := by
  rw [← map_eq_error_iff (f := pieces), read_pieces]
  split_ifs with hs
  · simp [hs, eq_comm]
  · simp only [hs, bind_eq_error_iff, Prod.exists, takeFields_eq_ok_iff, ne_eq, false_and, false_or,
      not_false_eq_true, true_and]
    refine or_congr_right (exists₂_congr fun parts rest => and_congr_right fun _ => ?_)
    split_ifs with hrest
    · simp [hrest]
    · simp [hrest, eq_comm]

/-! ## The ranges -/

theorem checkRange_eq_error_iff {f : NumberField} {n : UnsignedNumeral} (hn : n.IsValid) :
    checkRange f n = .error e ↔ ¬IsTime f.limit n.text ∧ e = .number f n.text := by
  rw [isTime_text_iff hn]
  unfold checkRange
  split_ifs with h
  · simp [h]
  · simp [h, eq_comm]

theorem Parts.checkRanges_eq_error_iff {p : Parts} (hp : p.IsValid) : p.checkRanges = .error e ↔
    ∃ f n, FirstOutside (template.zip p.pieces) f n ∧ e = .number f n := by
  have hpieces : template.zip p.pieces =
      [(.number .entrySpeed, p.entrySpeed.text), (.direction .entry, [p.entryDirection.letter]),
        (.number .displayDuration, p.displayDuration.text),
        (.direction .exit, [p.exitDirection.letter]), (.number .exitSpeed, p.exitSpeed.text)] :=
    rfl
  simp only [checkRanges, bind_eq_error_iff, checkRange_eq_error_iff hp.entrySpeed,
    checkRange_eq_error_iff hp.displayDuration, checkRange_eq_error_iff hp.exitSpeed,
    checkRange_eq_ok_iff, ← isTime_text_iff hp.entrySpeed, ← isTime_text_iff hp.displayDuration,
    hpieces, exists_const]
  constructor
  · rintro (⟨hout, rfl⟩ | ⟨h₁, ⟨hout, rfl⟩ | ⟨h₂, hout, rfl⟩⟩)
    · exact ⟨_, _, .here hout, rfl⟩
    · exact ⟨_, _, .number h₁ (.direction (.here hout)), rfl⟩
    · exact ⟨_, _, .number h₁ (.direction (.number h₂ (.direction (.here hout)))), rfl⟩
  · rintro ⟨f, n, hfirst, rfl⟩
    obtain hout | ⟨h₁, hfirst⟩ := hfirst
    · exact .inl ⟨hout, rfl⟩
    obtain _ | _ | hfirst := hfirst
    obtain hout | ⟨h₂, hfirst⟩ := hfirst
    · exact .inr ⟨h₁, .inl ⟨hout, rfl⟩⟩
    obtain _ | _ | hfirst := hfirst
    obtain hout | ⟨-, hfirst⟩ := hfirst
    · exact .inr ⟨h₁, .inr ⟨h₂, hout, rfl⟩⟩
    · cases hfirst

/-! ## Reports -/

theorem read_eq_error_iff {raw : List Char} : Tag.read raw = .error e ↔
    Parts.read (content raw) = .error e ∨
      ∃ p, Parts.read (content raw) = .ok p ∧ p.checkRanges = .error e := by
  simp only [Tag.read, bind_eq_error_iff]
  refine or_congr_right (exists_congr fun p => and_congr_right fun _ => or_iff_left ?_)
  -- What has passed the range checks is a tag.
  rintro ⟨_, hrange, herror⟩
  obtain ⟨t, ht⟩ := Parts.exists_tag_of_checkRanges hrange
  rw [ht] at herror
  cases herror

theorem Field.Shows.exists_append (h : f.Shows s value) : ∃ rest, s = value ++ rest := by
  cases h with
  | nothing => exact ⟨[], rfl⟩
  | run => exact ⟨_, rfl⟩
  | letter d rest => exact ⟨rest, rfl⟩
  | character c rest => exact ⟨rest, rfl⟩

/-- What fields match is the text in front of what they leave. -/
theorem Matches.eq_append (h : Matches fields s parts rest) : s = parts.flatten ++ rest := by
  induction h with
  | nil s => rfl
  | cons _ _ ih => rw [List.flatten_cons, List.append_assoc, ← ih]

theorem FirstOutside.mem {pairs : List (Field × List Char)} {g : NumberField}
    (h : FirstOutside pairs g value) : (.number g, value) ∈ pairs := by
  induction h with
  | here => exact List.mem_cons_self
  | number _ _ ih => exact List.mem_cons_of_mem _ ih
  | direction _ ih => exact List.mem_cons_of_mem _ ih

theorem Reports.isInfix {key : String} (h : Reports s key value) : value <:+: s := by
  cases h with
  | empty h => exact List.nil_infix
  | field _ _ hbefore =>
    rw [hbefore.eq_append]
    exact ⟨_, _, List.append_assoc ..⟩
  | trailing hmatches _ =>
    rw [hmatches.eq_append]
    exact (List.suffix_append _ _).isInfix
  | range hmatches hfirst =>
    rw [hmatches.eq_append, List.append_nil]
    exact List.infix_of_mem_flatten (List.of_mem_zip hfirst.mem).2

theorem inner_isInfix (raw : List Char) : inner raw <:+: raw := by
  unfold inner
  split_ifs
  · exact (List.dropLast_prefix _).isInfix.trans (List.tail_suffix _).isInfix
  · exact List.infix_rfl

theorem exists_error_iff_reports {raw : List Char} {key : String} :
    (∃ e, Tag.read raw = .error e ∧ e.field = key ∧ e.value = value) ↔
      Reports (inner raw) key value := by
  rw [← content_eq_inner]
  simp only [read_eq_error_iff, Parts.read_eq_error_iff, takeFields_eq_error_iff]
  constructor
  · rintro ⟨e, (⟨hnil, rfl⟩ | ⟨hne, ⟨before, f, after, parts, rest, htemplate, hbefore, he⟩ |
      ⟨parts, rest, hmatches, hrest, rfl⟩⟩) | ⟨p, hp, hrange⟩, rfl, rfl⟩
    · exact .empty hnil
    · obtain ⟨hfails, hkey, hshows⟩ := Field.take_eq_error_iff.1 ⟨e, he, rfl, rfl⟩
      obtain ⟨rest, rfl⟩ := hshows.exists_append
      rw [← hkey]
      exact .field hne htemplate hbefore hfails hshows
    · exact .trailing hmatches hrest
    · obtain ⟨f, n, hfirst, rfl⟩ :=
        (Parts.checkRanges_eq_error_iff (Parts.read_eq_ok_iff.1 hp).1).1 hrange
      exact .range (Parts.exists_read_iff.1 ⟨p, hp, rfl⟩) hfirst
  · intro h
    cases h with
    | empty hnil => exact ⟨.empty, .inl (.inl ⟨hnil, rfl⟩), rfl, rfl⟩
    | field hne htemplate hbefore hfails hshows =>
      obtain ⟨e, he, hfield, hvalue⟩ := Field.take_eq_error_iff.2 ⟨hfails, rfl, hshows⟩
      exact ⟨e, .inl (.inr ⟨hne, .inl ⟨_, _, _, _, _, htemplate, hbefore, he⟩⟩), hfield, hvalue⟩
    | trailing hmatches hrest =>
      exact ⟨.trailing value, .inl (.inr ⟨hmatches.ne_nil, .inr ⟨_, _, hmatches, hrest, rfl⟩⟩),
        rfl, rfl⟩
    | @range parts f _ hmatches hfirst =>
      obtain ⟨p, hp, rfl⟩ := Parts.exists_read_iff.2 hmatches
      have hrange := (Parts.checkRanges_eq_error_iff (Parts.read_eq_ok_iff.1 hp).1).2
        ⟨f, value, hfirst, rfl⟩
      exact ⟨.number f value, .inr ⟨p, hp, hrange⟩, rfl, rfl⟩

/-- A text is rejected as a tag with the field and the text that its content
reports, and with no others; what it is reported with stands in the text. -/
theorem read_rejects_iff (raw : List Char) :
    (∀ key value, (∃ e, Tag.read raw = .error e ∧ e.field = key ∧ e.value = value) ↔
      Reports (inner raw) key value) ∧
      ∀ e, Tag.read raw = .error e → e.value <:+: raw := by
  refine ⟨fun key value => exists_error_iff_reports, fun e he => ?_⟩
  have hreports := exists_error_iff_reports.1 ⟨e, he, rfl, rfl⟩
  exact hreports.isInfix.trans (inner_isInfix raw)

/-- The letter in place of a direction is reported, and not the number in front of
it, which is out of range. -/
theorem read_rejects_iff_letter :
    (∃ e, Tag.read "<99Z1R0.5>".toList = .error e ∧ e.field = "entry_direction" ∧
      e.value = ['Z']) ∧
      Reports (inner "<99Z1R0.5>".toList) "entry_direction" ['Z'] ∧
      ['Z'] <:+: "<99Z1R0.5>".toList := by
  obtain ⟨hreports, hinfix⟩ := read_rejects_iff "<99Z1R0.5>".toList
  have herror : Tag.read "<99Z1R0.5>".toList = .error (.direction .entry ['Z']) := by rfl
  exact ⟨⟨_, herror, rfl, rfl⟩, (hreports _ _).1 ⟨_, herror, rfl, rfl⟩, hinfix _ herror⟩

end Tag

end KineticText
