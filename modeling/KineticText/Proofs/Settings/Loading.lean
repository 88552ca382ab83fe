import KineticText.Proofs.Settings.Checked
import KineticText.Yaml.Reading

/-!
# Accepted settings

Data gives settings if and only if it has the version of the format, a known
preset or none, and values that its other keys can be read from (`Accepted`).
What is read from the value of a key is said by a relation for each key: a gap in
range, a size of two positive numbers, canvas numbers of known names in their
ranges, and a whole number as seed.  The settings hold what is read, and what
stands for it where no value is given (`Loaded`).

The ranges of the canvas numbers are checked by the canvas that is made at the
end, together with the usual values of the other numbers, which are in range
(`exists_canvas_iff`).  So a canvas can be made of all settings that are loaded.

There are five groups: keys and values, what is read, the canvas, data, and
refusals.
-/

namespace KineticText

namespace Settings

variable {s : Settings} {v gap numbers seed : Datum} {entries taken : List (Datum × Datum)}
  {e : Datum × Datum} {size : Datum × Datum} {key : String} {f : Failure}

/-! ## Keys and values -/

/-- A value is given for a key: it is there, and it is not null. -/
def Given (entries : List (Datum × Datum)) (key : String) (v : Datum) : Prop :=
  Datum.lookup? key entries = some v ∧ v ≠ .null

/-- What is read from the value given for a key, or what stands for it where none
is given. -/
def Holds {α : Type} (Reads : Datum → α → Prop) (usual : α) (entries : List (Datum × Datum))
    (key : String) (result : α) : Prop :=
  (∃ v, Given entries key v ∧ Reads v result) ∨ (∀ v, ¬Given entries key v) ∧ result = usual

theorem given_iff : Given entries key v ↔ present? entries key = some v := by
  unfold Given present?
  cases hlookup : Datum.lookup? key entries with
  | none => simp
  | some w => cases w <;> simp +contextual [eq_comm]

section Reading

variable {α : Type} {Reads : Datum → α → Prop} {read : Datum → Except Failure α}
  {usual result : α}

theorem exists_holds_iff : (∃ result, Holds Reads usual entries key result) ↔
    ∀ v, Given entries key v → ∃ result, Reads v result := by
  constructor
  · rintro ⟨result, ⟨v, hv, hread⟩ | ⟨hnone, -⟩⟩ w hw
    · obtain rfl := Option.some.inj (hv.1.symm.trans hw.1)
      exact ⟨result, hread⟩
    · exact absurd hw (hnone w)
  · intro hall
    by_cases hgiven : ∃ v, Given entries key v
    · obtain ⟨v, hv⟩ := hgiven
      obtain ⟨result, hread⟩ := hall v hv
      exact ⟨result, .inl ⟨v, hv, hread⟩⟩
    · exact ⟨usual, .inr ⟨not_exists.1 hgiven, rfl⟩⟩

theorem holds_congr {Reads' : Datum → α → Prop}
    (h : ∀ v result, v ≠ .null → (Reads v result ↔ Reads' v result)) :
    Holds Reads usual entries key result ↔ Holds Reads' usual entries key result :=
  or_congr_left <| exists_congr fun v => and_congr_right fun hv => h v result hv.2

theorem readOr_eq_ok_iff : readOr read usual (present? entries key) = .ok result ↔
    Holds (fun v result => read v = .ok result) usual entries key result := by
  simp only [Holds, given_iff]
  cases present? entries key with
  | none => simp [readOr, eq_comm]
  | some v => simp [readOr]

/-- A reader that takes null for the usual value needs no case for it. -/
theorem read_getD_eq_readOr (hnull : read .null = .ok usual) :
    read ((Datum.lookup? key entries).getD .null) = readOr read usual (present? entries key) := by
  unfold present?
  cases hlookup : Datum.lookup? key entries with
  | none => exact hnull
  | some v =>
    cases v with
    | null => exact hnull
    | _ => rfl

end Reading

/-! ## What is read -/

def ReadsGap (v gap : Datum) : Prop :=
  ∃ x, v.readNumber "gap" = .ok x ∧ Datum.minGap ≤ x ∧ x ≤ Datum.maxGap ∧ gap = .real x

/-- Width and height are read from a list of two positive numbers. -/
inductive ReadsSize : Datum → Datum × Datum → Prop
  | mk {width height : Datum} {x y : Binary64} (hwidth : width.readNumber "canvas width" = .ok x)
    (hheight : height.readNumber "canvas height" = .ok y) (hx : 0 < x) (hy : 0 < y) :
    ReadsSize (.list [width, height]) (.real x, .real y)

/-- A number of the canvas keeps its name.  The number of places on a ring is
whole. -/
inductive ReadsNumber : Datum × Datum → Datum × Datum → Prop
  | samples (i : ℤ) : ReadsNumber (.text "spiral_samples", .int i) (.text "spiral_samples", .int i)
  | number {key : String} {v : Datum} {x : Binary64} (hkey : key ∈ Canvas.layoutKeys)
    (hsamples : key ≠ "spiral_samples") (h : v.readNumber ("layout." ++ key) = .ok x) :
    ReadsNumber (.text key, v) (.text key, .real x)

/-- The canvas numbers that have a range are in it, where they are given. -/
structure NumbersInRange (numbers : List (Datum × Datum)) : Prop where
  margin : ∀ v q, Datum.lookup? "margin" numbers = some v → v.quantity? = some q → 0 ≤ q
  minSpacing : ∀ v q, Datum.lookup? "min_spacing" numbers = some v → v.quantity? = some q → 0 ≤ q
  ringStep : ∀ v q, Datum.lookup? "spiral_step" numbers = some v → v.quantity? = some q → 0 < q
  ringSamples : ∀ v q, Datum.lookup? "spiral_samples" numbers = some v → v.quantity? = some q →
    1 ≤ q

/-- Canvas numbers are read from a mapping, one by one. -/
inductive ReadsNumbers : Datum → Datum → Prop
  | mk {given taken : List (Datum × Datum)} (h : List.Forall₂ ReadsNumber given taken)
    (hrange : NumbersInRange taken) : ReadsNumbers (.mapping given) (.mapping taken)

inductive ReadsSeed : Datum → Datum → Prop
  | mk (i : ℤ) : ReadsSeed (.int i) (.int i)

theorem readGap_eq_ok_iff : readGap v = .ok gap ↔ ReadsGap v gap := by
  have hmap : readGap v = v.readGap.map Datum.real := rfl
  rw [hmap, map_eq_ok_iff]
  constructor
  · rintro ⟨x, hx, rfl⟩
    obtain ⟨-, hmin, hmax⟩ := (Datum.ends_readGap v).of_ok hx
    obtain ⟨y, hy, hguard⟩ := bind_eq_ok_iff.1 hx
    obtain rfl := Except.ok.inj (guard_eq_ok_iff.1 hguard).2
    exact ⟨y, hy, hmin, hmax, rfl⟩
  · rintro ⟨x, hx, hmin, hmax, rfl⟩
    refine ⟨x, bind_eq_ok_iff.2 ⟨x, hx, guard_eq_ok_iff.2 ⟨?_, rfl⟩⟩, rfl⟩
    simp [Binary64.not_lt_of_le hmin, Binary64.not_lt_of_le hmax]

theorem sizeOf_eq_ok_iff : sizeOf v = .ok size ↔ ReadsSize v size := by
  constructor
  · intro h
    unfold sizeOf at h
    split at h
    next width height =>
      obtain ⟨x, hx, h⟩ := bind_eq_ok_iff.1 h
      obtain ⟨y, hy, h⟩ := bind_eq_ok_iff.1 h
      obtain ⟨hpos, h⟩ := guard_eq_ok_iff.1 h
      cases h
      have hpositive {x : Binary64} (hx : x.isFinite = true) (h : ¬x ≤ 0) : 0 < x :=
        Binary64.lt_of_not_le (Binary64.isNaN_of_isFinite hx) Binary64.isNaN_zero h
      obtain ⟨hx', hy'⟩ := not_or.1 fun h => hpos (by simpa using h)
      exact .mk hx hy (hpositive (Datum.isFinite_of_readNumber hx) hx')
        (hpositive (Datum.isFinite_of_readNumber hy) hy')
    next => cases h
  · rintro ⟨hwidth, hheight, hx, hy⟩
    have hnot {x : Binary64} (h : 0 < x) : ¬x ≤ 0 := fun hle => Binary64.not_lt_of_le hle h
    refine bind_eq_ok_iff.2 ⟨_, hwidth, bind_eq_ok_iff.2 ⟨_, hheight, guard_eq_ok_iff.2 ⟨?_, rfl⟩⟩⟩
    simp [hnot hx, hnot hy]

theorem canvasNumberOf_eq_ok_iff {o : Datum × Datum} :
    canvasNumberOf e = .ok o ↔ ReadsNumber e o := by
  constructor
  · intro h
    obtain ⟨key, v⟩ := e
    cases key with
    | text key =>
      unfold canvasNumberOf at h
      dsimp only at h
      split_ifs at h with hkey hsamples
      · subst hsamples
        split at h
        next i =>
          cases h
          exact .samples i
        next => cases h
      · obtain ⟨x, hx, h⟩ := bind_eq_ok_iff.1 h
        cases h
        exact .number (by simpa using hkey) hsamples hx
    | _ => cases h
  · intro h
    cases h with
    | samples i => rfl
    | @number key v x hkey hsamples h =>
      simp only [canvasNumberOf, List.contains_iff_mem.2 hkey, hsamples]
      rw [h]
      rfl

theorem canvasNumbersOf_eq_ok_iff (hv : v ≠ .null) : canvasNumbersOf v = .ok numbers ↔
    ∃ given taken, v = .mapping given ∧ numbers = .mapping taken ∧
      List.Forall₂ ReadsNumber given taken := by
  cases v with
  | null => exact absurd rfl hv
  | mapping given =>
    have hmap : canvasNumbersOf (.mapping given) = (given.mapM canvasNumberOf).map .mapping := rfl
    rw [hmap, map_eq_ok_iff]
    simp only [mapM_eq_ok_iff, canvasNumberOf_eq_ok_iff]
    constructor
    · rintro ⟨taken, htaken, rfl⟩
      exact ⟨given, taken, rfl, rfl, htaken⟩
    · rintro ⟨_, taken, ⟨⟩, rfl, htaken⟩
      exact ⟨taken, htaken, rfl⟩
  | _ => exact iff_of_false (by rintro ⟨⟩) (by rintro ⟨_, _, ⟨⟩, _⟩)

theorem seedOf_eq_ok_iff (hv : v ≠ .null) : seedOf v = .ok seed ↔ ReadsSeed v seed := by
  cases v with
  | null => exact absurd rfl hv
  | int i =>
    constructor
    · rintro ⟨⟩
      exact .mk i
    · rintro ⟨⟩
      rfl
  | _ => exact iff_of_false (by rintro ⟨⟩) (by rintro ⟨⟩)

/-! ## The canvas -/

theorem lookup_of_mapM_named? {others : List (String × Datum)}
    (h : entries.mapM named? = some others) (key : String) :
    others.lookup key = Datum.lookup? key entries := by
  induction entries generalizing others with
  | nil =>
    cases h
    rfl
  | cons e rest ih =>
    obtain ⟨name, v⟩ := e
    rw [List.mapM_cons, Option.bind_eq_bind, Option.bind_eq_some_iff] at h
    obtain ⟨named, hnamed, h⟩ := h
    obtain ⟨others', hothers, ⟨⟩⟩ := Option.bind_eq_some_iff.1 h
    cases name with
    | text name =>
      obtain rfl : (name, v) = named := Option.some.inj hnamed
      rw [List.lookup_cons, ih hothers, Datum.lookup?, Datum.lookup?, List.find?_cons]
      by_cases hkey : key = name
      · simp [hkey]
      · simp [beq_eq_false_iff_ne.2 hkey, beq_eq_false_iff_ne.2 (Ne.symm hkey)]
    | _ => cases hnamed

theorem IsCanvasNumber.isNaN_eq (h : IsCanvasNumber e) {q : Quantity}
    (hq : e.2.quantity? = some q) : q.isNaN = false := by
  obtain ⟨_, -, -, ⟨x, hx, hfinite⟩ | ⟨-, i, hi⟩⟩ := h
  · rw [hx] at hq
    cases hq
    exact Binary64.isNaN_of_isFinite hfinite
  · rw [hi] at hq
    cases hq
    rfl

/-- The canvas of checked settings is that of their size and of numbers that fit it,
under the names of the data. -/
theorem Checked.exists_ofSize_eq (h : s.Checked) (htaken : s.canvasNumbers = .mapping taken) :
    ∃ others, s.canvas = Canvas.ofSize s.size.1 s.size.2 others ∧
      Canvas.SizeFit s.size.1 s.size.2 others ∧
      ∀ key, others.lookup key = Datum.lookup? key taken := by
  obtain ⟨_, htaken', hnumbers⟩ := h.canvasNumbers
  obtain rfl := Datum.mapping.inj (htaken.symm.trans htaken')
  obtain ⟨others, hothers, hknown⟩ := exists_mapM_named? hnumbers
  refine ⟨others, ?_, ?_, lookup_of_mapM_named? hothers⟩
  · simp only [canvas, htaken, hothers]
  · exact ⟨h.width.hasDouble, h.height.hasDouble, fun e he => (hknown e he).isNumber.1,
      fun e he => (hknown e he).isNumber.2⟩

/-- A canvas can be made of checked settings if and only if their canvas numbers
are in range. -/
theorem exists_canvas_iff (hchecked : s.Checked) (htaken : s.canvasNumbers = .mapping taken) :
    (∃ c, s.canvas = .ok c) ↔ NumbersInRange taken := by
  obtain ⟨_, htaken', hnumbers⟩ := hchecked.canvasNumbers
  obtain rfl := Datum.mapping.inj (htaken.symm.trans htaken')
  obtain ⟨others, hcanvas, hfit, hlookup⟩ := hchecked.exists_ofSize_eq htaken
  obtain ⟨q, hq, -, hqPos⟩ := hchecked.width
  obtain ⟨r, hr, -, hrPos⟩ := hchecked.height
  rw [hcanvas, hfit.ofSize_eq hq hr (Quantity.not_le_zero_of_toBinary64 hqPos)
      (Quantity.not_le_zero_of_toBinary64 hrPos),
    Canvas.exists_ofEntries_iff (Canvas.fit_append_sizeEntries hfit.known hfit.numbers),
    Canvas.inRange_append_iff hfit.known hfit.numbers hqPos hrPos]
  simp only [hlookup]
  have hnan {key : String} {v : Datum} {q : Quantity} (hv : Datum.lookup? key taken = some v)
      (hq : v.quantity? = some q) : q.isNaN = false := by
    obtain ⟨e, he, rfl⟩ := Option.map_eq_some_iff.1 hv
    exact (hnumbers e (List.mem_of_find?_eq_some he)).isNaN_eq hq
  have hgiven (key : String) {p p' : Quantity → Prop} (h : ∀ q, q.isNaN = false → (p q ↔ p' q)) :
      (∀ v q, Datum.lookup? key taken = some v → v.quantity? = some q → p q) ↔
        ∀ v q, Datum.lookup? key taken = some v → v.quantity? = some q → p' q :=
    forall₄_congr fun v q hv hq => h q (hnan hv hq)
  have hnonneg (q : Quantity) (hq : q.isNaN = false) : ¬q < 0 ↔ 0 ≤ q := Quantity.not_lt hq rfl
  have hpositive (q : Quantity) (hq : q.isNaN = false) : ¬q ≤ 0 ↔ 0 < q := Quantity.not_le hq rfl
  have hcount (q : Quantity) (hq : q.isNaN = false) : ¬q < 1 ↔ 1 ≤ q := Quantity.not_lt hq rfl
  rw [hgiven "margin" hnonneg, hgiven "min_spacing" hnonneg, hgiven "spiral_step" hpositive,
    hgiven "spiral_samples" hcount]
  constructor
  · rintro ⟨hmargin, hspacing, hstep, hsamples⟩
    exact ⟨hmargin, hspacing, hstep, hsamples⟩
  · intro h
    exact ⟨h.margin, h.minSpacing, h.ringStep, h.ringSamples⟩

/-! ## Data -/

theorem numbersInRange_nil : NumbersInRange [] := by
  constructor <;> rintro _ _ ⟨⟩

/-- The version of the format is given, which is the number one. -/
def HasVersion (entries : List (Datum × Datum)) : Prop :=
  ∃ v q, Datum.lookup? "motion" entries = some v ∧ v.quantity? = some q ∧ q ≤ 1 ∧ 1 ≤ q

/-- The rules of settings data. -/
structure Accepted (entries : List (Datum × Datum)) : Prop where
  version : HasVersion entries
  preset : Datum.lookup? "preset" entries = none ∨
    ∃ p ∈ presets, Datum.lookup? "preset" entries = some (.text p.1)
  gap : ∀ v, Given entries "gap" v → ∃ gap, ReadsGap v gap
  canvas : ∀ v, Given entries "canvas" v → ∃ size, ReadsSize v size
  layout : ∀ v, Given entries "layout" v → ∃ numbers, ReadsNumbers v numbers
  seed : ∀ v, Given entries "seed" v → ∃ seed, ReadsSeed v seed

/-- The settings hold what the data says, and else what is usual; the usual gap
is that of the preset. -/
structure Loaded (entries : List (Datum × Datum)) (s : Settings) : Prop where
  gap : ∃ p ∈ presets, (Datum.lookup? "preset" entries).getD (.text "default") = .text p.1 ∧
    s.preset = .text p.1 ∧ Holds ReadsGap (.real p.2) entries "gap" s.gap
  size : Holds ReadsSize Canvas.usualSize entries "canvas" s.size
  canvasNumbers : Holds ReadsNumbers (.mapping []) entries "layout" s.canvasNumbers
  seed : Holds ReadsSeed .null entries "seed" s.seed

theorem isVersion_iff : isVersion v = true ↔ ∃ q, v.quantity? = some q ∧ q ≤ 1 ∧ 1 ≤ q := by
  cases v with
  | int i =>
    have hle (a b : ℤ) : Quantity.whole a ≤ .whole b ↔ a ≤ b := by
      rw [← Quantity.not_lt rfl rfl]
      exact (not_congr decide_eq_true_iff).trans not_lt
    have hone : (1 : Quantity) = .whole 1 := rfl
    simp only [isVersion, Datum.quantity?, Option.some.injEq, exists_eq_left', hone, hle,
      decide_eq_true_eq]
    exact le_antisymm_iff
  | bool b => cases b <;> decide +kernel
  | real x =>
    have hone : (1 : Quantity).IsExact := Quantity.isExact_of_whole? rfl (by decide)
    simp only [isVersion, Binary64.sameNumber, Bool.and_eq_true, Datum.quantity?,
      Option.some.injEq, exists_eq_left']
    rw [← hone.le_rounded_iff, ← hone.rounded_le_iff]
    exact and_congr Quantity.real_le_real.symm Quantity.real_le_real.symm
  | _ => exact iff_of_false Bool.false_ne_true (by rintro ⟨_, ⟨⟩, _⟩)

theorem hasVersion_iff :
    (Datum.lookup? "motion" entries).any isVersion = true ↔ HasVersion entries := by
  simp only [HasVersion, Option.any_eq_true, isVersion_iff, exists_and_left]

theorem lookup_presets : ∀ p ∈ presets, presets.lookup p.1 = some p.2 := by decide +kernel

theorem ofPreset_eq_ok_iff : ofPreset v = .ok s ↔
    ∃ p ∈ presets, v = .text p.1 ∧ s = { gap := .real p.2, preset := .text p.1 } := by
  constructor
  · intro h
    cases v with
    | text name =>
      simp only [ofPreset] at h
      cases hlookup : presets.lookup name with
      | none =>
        rw [hlookup] at h
        cases h
      | some gap =>
        rw [hlookup] at h
        obtain ⟨l, r, hmem, -⟩ := List.lookup_eq_some_iff.1 hlookup
        exact ⟨(name, gap), by simp [hmem], rfl, (Except.ok.inj h).symm⟩
    | _ => cases h
  · rintro ⟨p, hp, rfl, rfl⟩
    simp only [ofPreset, lookup_presets p hp]

/-- What is loaded has been checked. -/
theorem Loaded.checked (h : Loaded entries s) : s.Checked := by
  obtain ⟨p, hp, -, -, hgap⟩ := h.gap
  have hsize : IsSide s.size.1 ∧ IsSide s.size.2 := by
    rcases h.size with ⟨v, -, hread⟩ | ⟨-, husual⟩
    · exact (ends_sizeOf v).of_ok (sizeOf_eq_ok_iff.2 hread)
    · rw [husual]
      exact ⟨checked_usual.width, checked_usual.height⟩
  refine ⟨?_, hsize.1, hsize.2, ?_⟩
  · rcases hgap with ⟨v, -, hread⟩ | ⟨-, husual⟩
    · exact (ends_readGap v).of_ok (readGap_eq_ok_iff.2 hread)
    · exact ⟨p.2, husual, isGap_presets p hp⟩
  · rcases h.canvasNumbers with ⟨v, hv, hread⟩ | ⟨-, husual⟩
    · generalize s.canvasNumbers = numbers at hread
      obtain ⟨hforall, -⟩ := hread
      exact (ends_canvasNumbersOf _).of_ok
        ((canvasNumbersOf_eq_ok_iff hv.2).2 ⟨_, _, rfl, rfl, hforall⟩)
    · exact ⟨[], husual, by simp⟩

/-- Canvas numbers that are read from the data make a canvas if they are in
range. -/
theorem canvasNumbersOf_and_canvas_iff (hchecked : s.Checked) :
    (canvasNumbersOf ((Datum.lookup? "layout" entries).getD .null) = .ok s.canvasNumbers ∧
      ∃ c, s.canvas = .ok c) ↔
      Holds ReadsNumbers (.mapping []) entries "layout" s.canvasNumbers := by
  have hread : canvasNumbersOf ((Datum.lookup? "layout" entries).getD .null) =
      readOr canvasNumbersOf (.mapping []) (present? entries "layout") :=
    read_getD_eq_readOr rfl
  rw [hread, readOr_eq_ok_iff]
  constructor
  · rintro ⟨⟨v, hv, hnumbers⟩ | husual, hcanvas⟩
    · obtain ⟨given, taken, rfl, htaken, hforall⟩ := (canvasNumbersOf_eq_ok_iff hv.2).1 hnumbers
      refine .inl ⟨_, hv, ?_⟩
      rw [htaken]
      exact .mk hforall ((exists_canvas_iff hchecked htaken).1 hcanvas)
    · exact .inr husual
  · rintro (⟨v, hv, hnumbers⟩ | husual)
    · generalize htaken : s.canvasNumbers = numbers at hnumbers
      obtain ⟨hforall, hrange⟩ := hnumbers
      exact ⟨.inl ⟨_, hv, (canvasNumbersOf_eq_ok_iff hv.2).2 ⟨_, _, rfl, rfl, hforall⟩⟩,
        (exists_canvas_iff hchecked htaken).2 hrange⟩
    · exact ⟨.inr husual, (exists_canvas_iff hchecked husual.2).2 numbersInRange_nil⟩

theorem ofData_eq_ok_iff :
    ofData (.mapping entries) = .ok s ↔ HasVersion entries ∧ Loaded entries s := by
  have hgapIn {usual gap : Datum} : readOr readGap usual (present? entries "gap") = .ok gap ↔
      Holds ReadsGap usual entries "gap" gap :=
    readOr_eq_ok_iff.trans (holds_congr fun _ _ _ => readGap_eq_ok_iff)
  have hsizeIn {usual size : Datum × Datum} :
      readOr sizeOf usual (present? entries "canvas") = .ok size ↔
        Holds ReadsSize usual entries "canvas" size :=
    readOr_eq_ok_iff.trans (holds_congr fun _ _ _ => sizeOf_eq_ok_iff)
  have hseedIn {seed : Datum} :
      seedOf ((Datum.lookup? "seed" entries).getD .null) = .ok seed ↔
        Holds ReadsSeed .null entries "seed" seed := by
    have hread : seedOf ((Datum.lookup? "seed" entries).getD .null) =
        readOr seedOf .null (present? entries "seed") :=
      read_getD_eq_readOr rfl
    rw [hread, readOr_eq_ok_iff]
    exact holds_congr fun _ _ hv => seedOf_eq_ok_iff hv
  constructor
  · intro h
    have hchecked := ((ends_ofData entries).of_ok h).1
    obtain ⟨hversion, h⟩ := guard_eq_ok_iff.1 h
    obtain ⟨base, hbase, h⟩ := bind_eq_ok_iff.1 h
    obtain ⟨gap, hgap, h⟩ := bind_eq_ok_iff.1 h
    obtain ⟨size, hsize, h⟩ := bind_eq_ok_iff.1 h
    obtain ⟨numbers, hnumbers, h⟩ := bind_eq_ok_iff.1 h
    obtain ⟨seed, hseed, h⟩ := bind_eq_ok_iff.1 h
    obtain ⟨c, hc, h⟩ := bind_eq_ok_iff.1 h
    obtain ⟨p, hp, hpreset, rfl⟩ := ofPreset_eq_ok_iff.1 hbase
    cases h
    refine ⟨hasVersion_iff.1 (by simpa using hversion), ⟨p, hp, hpreset, rfl, hgapIn.1 hgap⟩,
      hsizeIn.1 hsize, ?_, hseedIn.1 hseed⟩
    exact (canvasNumbersOf_and_canvas_iff hchecked).1 ⟨hnumbers, c, hc⟩
  · rintro ⟨hversion, h⟩
    obtain ⟨hnumbers, c, hc⟩ := (canvasNumbersOf_and_canvas_iff h.checked).2 h.canvasNumbers
    obtain ⟨⟨p, hp, hpreset, hname, hgap⟩, hsize, -, hseed⟩ := h
    obtain ⟨gap, size, numbers, seed, preset⟩ := s
    obtain rfl : preset = .text p.1 := hname
    refine guard_eq_ok_iff.2 ⟨by simp [hasVersion_iff.2 hversion], ?_⟩
    refine bind_eq_ok_iff.2 ⟨_, ofPreset_eq_ok_iff.2 ⟨p, hp, hpreset, rfl⟩, ?_⟩
    refine bind_eq_ok_iff.2 ⟨gap, hgapIn.2 hgap, ?_⟩
    refine bind_eq_ok_iff.2 ⟨size, hsizeIn.2 hsize, ?_⟩
    refine bind_eq_ok_iff.2 ⟨numbers, hnumbers, ?_⟩
    refine bind_eq_ok_iff.2 ⟨seed, hseedIn.2 hseed, ?_⟩
    exact bind_eq_ok_iff.2 ⟨c, hc, rfl⟩

theorem exists_loaded_iff : (∃ s, ofData (.mapping entries) = .ok s) ↔ Accepted entries := by
  simp only [ofData_eq_ok_iff, exists_and_left]
  constructor
  · rintro ⟨hversion, s, ⟨p, hp, hpreset, -, hgap⟩, hsize, hnumbers, hseed⟩
    refine ⟨hversion, ?_, exists_holds_iff.1 ⟨_, hgap⟩, exists_holds_iff.1 ⟨_, hsize⟩,
      exists_holds_iff.1 ⟨_, hnumbers⟩, exists_holds_iff.1 ⟨_, hseed⟩⟩
    cases hlookup : Datum.lookup? "preset" entries with
    | none => exact .inl rfl
    | some v =>
      rw [hlookup, Option.getD_some] at hpreset
      exact .inr ⟨p, hp, congrArg some hpreset⟩
  · rintro ⟨hversion, hpreset, hgap, hsize, hnumbers, hseed⟩
    have hknown : ∃ p ∈ presets,
        (Datum.lookup? "preset" entries).getD (.text "default") = .text p.1 := by
      rcases hpreset with hnone | ⟨p, hp, hsome⟩
      · exact ⟨("default", 0), by simp [presets], by rw [hnone]; rfl⟩
      · exact ⟨p, hp, by rw [hsome]; rfl⟩
    obtain ⟨p, hp, hpreset⟩ := hknown
    obtain ⟨gap, hgap⟩ := exists_holds_iff.2 hgap
    obtain ⟨size, hsize⟩ := exists_holds_iff.2 hsize
    obtain ⟨numbers, hnumbers⟩ := exists_holds_iff.2 hnumbers
    obtain ⟨seed, hseed⟩ := exists_holds_iff.2 hseed
    exact ⟨hversion, ⟨gap, size, numbers, seed, .text p.1⟩, ⟨p, hp, hpreset, rfl, hgap⟩, hsize,
      hnumbers, hseed⟩

/-- The canvas of settings has their size and their margin, which is a twentieth of
the short side where they name none. -/
structure SizedAs (s : Settings) (c : Canvas) : Prop where
  width : ∃ q, s.size.1.quantity? = some q ∧ c.width = q.rounded
  height : ∃ q, s.size.2.quantity? = some q ∧ c.height = q.rounded
  margin : ∀ taken, s.canvasNumbers = .mapping taken →
    (∀ v, Datum.lookup? "margin" taken = some v → v.quantity? = some c.margin) ∧
      (Datum.lookup? "margin" taken = none → c.margin = .real (c.shortSide.toBinary64 * 0.05))

theorem Checked.sizedAs (h : s.Checked) {c : Canvas} (hc : s.canvas = .ok c) : s.SizedAs c := by
  obtain ⟨taken, htaken, -⟩ := h.canvasNumbers
  obtain ⟨others, hcanvas, -, hlookup⟩ := h.exists_ofSize_eq htaken
  rw [hcanvas] at hc
  obtain ⟨⟨q, hq, -, hwidth⟩, ⟨r, hr, -, hheight⟩, hmargin, -⟩ :=
    (Canvas.ends_ofSize s.size.1 s.size.2 others).of_ok hc
  have hshort : c.shortSide.toBinary64 = c.width.toBinary64.smaller c.height.toBinary64 := by
    rw [Canvas.shortSide, hwidth, hheight, Quantity.rounded, Quantity.rounded,
      Quantity.real_smaller_real]
    rfl
  refine ⟨⟨q, hq, hwidth⟩, ⟨r, hr, hheight⟩, ?_⟩
  intro taken' htaken'
  obtain rfl := Datum.mapping.inj (htaken.symm.trans htaken')
  rw [hlookup, ← hshort] at hmargin
  constructor
  · intro v hv
    rwa [hv] at hmargin
  · intro hnone
    rw [hnone] at hmargin
    exact (Option.some.inj hmargin).symm

/-! ## Refusals -/

theorem within_of_lookup? (h : Datum.lookup? key entries = some v) {w : Datum} (hw : w.Within v) :
    w.Within (.mapping entries) := by
  obtain ⟨e, he, rfl⟩ := Option.map_eq_some_iff.1 h
  exact .value (List.mem_of_find?_eq_some he) hw

/-- Where no whole number is beyond all doubles, a collection as preset is all
that is refused without a fault. -/
theorem not_unreported (hfits : (Datum.mapping entries).FitsDoubles)
    (hpreset : ∀ v, Datum.lookup? "preset" entries = some v → ¬IsCollection v) :
    ¬Unreported entries f := by
  have hshown {v : Datum} (hv : v.Within (.mapping entries)) (h : v.hasDisplay = false) : False :=
    Bool.false_ne_true (h.symm.trans (Datum.hasDisplay_of_not_isBeyond (hfits v hv)))
  intro h
  cases h with
  | presetKind _ h hv => exact hpreset _ h hv
  | presetDigits _ h hv => exact hshown (within_of_lookup? h .self) hv
  | gap _ _ h hv => exact hfits _ (within_of_lookup? h .self) hv
  | canvas _ _ _ h hv =>
    cases hv with
    | width hv => exact hfits _ (within_of_lookup? h (.item (by simp) .self)) hv
    | height _ hv => exact hfits _ (within_of_lookup? h (.item (by simp) .self)) hv
  | layout _ _ _ _ h hv =>
    obtain ⟨-, he⟩ := hv
    have hmem {front back : List (Datum × Datum)} {e : Datum × Datum} : e ∈ front ++ e :: back := by
      simp
    cases he with
    | beyond _ _ hv => exact hfits _ (within_of_lookup? h (.value hmem .self)) hv
    | digits hv => exact hshown (within_of_lookup? h (.key hmem .self)) hv

/-- Data of a settings file gives settings if and only if it follows the rules.
What it gives is what it says, a canvas with the margin of the data or the usual
one can be made of it, and other data is refused by a fault, unless its preset is
a collection or one of its whole numbers is beyond all doubles. -/
theorem ofData_iff_accepted (entries : List (Datum × Datum)) :
    ((∃ s, ofData (.mapping entries) = .ok s) ↔ Accepted entries) ∧
      (∀ s, ofData (.mapping entries) = .ok s →
        Loaded entries s ∧ ∃ c, s.canvas = .ok c ∧ s.SizedAs c) ∧
      ((Datum.mapping entries).FitsDoubles →
        (∀ v, Datum.lookup? "preset" entries = some v → ¬IsCollection v) →
        ¬Accepted entries → ∃ fault, ofData (.mapping entries) = .error (.fault fault)) ∧
      ∀ (read? : List Char → Option Datum) (path content : String),
        content.utf8ByteSize ≤ maxFileSize →
        read? (Text.lineFeeds content.toList) = some (.mapping entries) →
        (Datum.mapping entries).isPossible = true →
        ofFile read? path (some content) = ofData (.mapping entries) := by
  refine ⟨exists_loaded_iff, ?_, ?_, ?_⟩
  · intro s hs
    obtain ⟨hchecked, c, hc⟩ := (ends_ofData entries).of_ok hs
    exact ⟨(ofData_eq_ok_iff.1 hs).2, c, hc, hchecked.sizedAs hc⟩
  · intro hfits hpreset hnot
    rcases (ends_ofData entries).ok_or_error with ⟨s, hs, -⟩ | ⟨f, hf, ⟨fault, rfl⟩ | hunreported⟩
    · exact absurd (exists_loaded_iff.1 ⟨s, hs⟩) hnot
    · exact ⟨fault, hf⟩
    · exact absurd hunreported (not_unreported hfits hpreset)
  · intro read? path content hsize hread hpossible
    rw [ofFile, if_neg (not_lt.2 hsize), hread]
    exact if_pos hpossible

/-- Data with a size and a margin, which are numerals but for one of them. -/
def marginData : List (Datum × Datum) :=
  [(.text "motion", .int 1), (.text "preset", .text "subtle"),
   (.text "canvas", .list [.text " 100 ", .int 50]),
   (.text "layout", .mapping [(.text "margin", .text "2")])]

def laterVersion : List (Datum × Datum) := [(.text "motion", .int 2)]

/-- Data with a margin is accepted, and a file of another version refused. -/
theorem ofData_iff_accepted_margin :
    Accepted marginData ∧
      (∃ s c, ofData (.mapping marginData) = .ok s ∧ Loaded marginData s ∧
        s.gap.quantity? = some (.real 0.2) ∧ s.canvas = .ok c ∧ s.SizedAs c ∧
        c.width = .real 100 ∧ c.height = .real 50 ∧ c.margin = .real 2) ∧
      (Datum.mapping laterVersion).FitsDoubles ∧
      (∀ v, Datum.lookup? "preset" laterVersion = some v → ¬IsCollection v) ∧
      ¬Accepted laterVersion ∧
      ∃ fault, ofFile Yaml.read? "settings.yaml" (some "motion: 2") = .error (.fault fault) := by
  obtain ⟨haccepted, hloaded, -⟩ := ofData_iff_accepted marginData
  obtain ⟨-, -, hrefused, hfile⟩ := ofData_iff_accepted laterVersion
  have hcanvas : (ofData (.mapping marginData) >>= fun s => s.canvas.map fun c =>
      (s.gap.quantity?, c.width, c.height, c.margin)) =
        .ok (some (.real 0.2), .real 100, .real 50, .real 2) := by
    decide +kernel
  obtain ⟨s, hs, hcanvas⟩ := bind_eq_ok_iff.1 hcanvas
  obtain ⟨c, hc, hnumbers⟩ := map_eq_ok_iff.1 hcanvas
  obtain ⟨hgap, hwidth, hheight, hmargin⟩ := by simpa only [Prod.mk.injEq] using hnumbers
  obtain ⟨hholds, c', hc', hsized⟩ := hloaded s hs
  obtain rfl := Except.ok.inj (hc.symm.trans hc')
  have hfits : (Datum.mapping laterVersion).FitsDoubles := by
    intro v hv hbeyond
    have hsmall : ¬(Datum.int 2).IsBeyond := by decide +kernel
    cases hv with
    | self => exact hbeyond
    | key he h =>
      obtain rfl := List.mem_singleton.1 he
      cases h
      exact hbeyond
    | value he h =>
      obtain rfl := List.mem_singleton.1 he
      cases h
      exact hsmall hbeyond
  have hpreset : ∀ v, Datum.lookup? "preset" laterVersion = some v → ¬IsCollection v := by
    rintro v ⟨⟩
  have hnot : ¬Accepted laterVersion := by
    intro h
    obtain ⟨v, q, ⟨⟩, ⟨⟩, hle, -⟩ := h.version
    exact absurd hle (by decide +kernel)
  refine ⟨haccepted.1 ⟨s, hs⟩, ⟨s, c, hs, hholds, hgap, hc, hsized, hwidth, hheight, hmargin⟩,
    hfits, hpreset, hnot, ?_⟩
  obtain ⟨fault, hfault⟩ := hrefused hfits hpreset hnot
  have hread : Yaml.read? (Text.lineFeeds "motion: 2".toList) = some (.mapping laterVersion) := by
    cbv
  exact ⟨fault, (hfile Yaml.read? "settings.yaml" "motion: 2" (by decide +kernel) hread rfl).trans hfault⟩

end Settings

end KineticText
