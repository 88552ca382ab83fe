import KineticText.Proofs.Canvas.Making
import KineticText.Settings

/-!
# Checked settings

Settings from a preset or from data hold checked values: a gap in range, sides
that are positive and not beyond all doubles, and finite numbers of known names
(`Checked`).  A canvas can be made of them, unless one of the numbers is refused
by a fault (`Checked.ends_canvas`).

Data gives checked settings, or it is refused.  It is refused by a fault but for
the values that `Unreported` lists (`ends_ofData`), and these are refused in
another way (`Unreported.ofData_eq`): the first value that does not pass decides.

There are six groups: checked values, canvases of them, presets, fields, data,
and unreported values.
-/

namespace KineticText

namespace Settings

variable {s : Settings} {v : Datum} {entries : List (Datum × Datum)} {f : Failure}

/-! ## Checked values -/

/-- A positive number that is not beyond all doubles. -/
def IsSide (v : Datum) : Prop :=
  ∃ q, v.quantity? = some q ∧ q.toBinary64.isFinite = true ∧ 0 < q.toBinary64

/-- A known name with a finite double, or with a whole number where places are
counted. -/
def IsCanvasNumber (e : Datum × Datum) : Prop :=
  ∃ key ∈ Canvas.layoutKeys, e.1 = .text key ∧
    ((∃ x, e.2 = .real x ∧ x.isFinite = true) ∨ key = "spiral_samples" ∧ ∃ i, e.2 = .int i)

/-- Settings whose gap, size and canvas numbers have been checked. -/
structure Checked (s : Settings) : Prop where
  gap : ∃ x, s.gap = .real x ∧ Datum.IsGap x
  width : IsSide s.size.1
  height : IsSide s.size.2
  canvasNumbers : ∃ entries, s.canvasNumbers = .mapping entries ∧ ∀ e ∈ entries, IsCanvasNumber e

theorem checked_usual : Checked {} where
  gap := ⟨0, rfl, by decide +kernel, by decide +kernel, by decide +kernel⟩
  width := ⟨.whole 800, rfl, by decide +kernel, by decide +kernel⟩
  height := ⟨.whole 600, rfl, by decide +kernel, by decide +kernel⟩
  canvasNumbers := ⟨[], rfl, by simp⟩

/-! ## Canvases of checked settings -/

theorem exists_mapM_named? (h : ∀ e ∈ entries, IsCanvasNumber e) :
    ∃ others, entries.mapM named? = some others ∧
      ∀ e ∈ others, IsCanvasNumber (.text e.1, e.2) := by
  induction entries with
  | nil => exact ⟨[], rfl, by simp⟩
  | cons e rest ih =>
    obtain ⟨he, hrest⟩ := List.forall_mem_cons.1 h
    obtain ⟨others, hothers, hnumbers⟩ := ih hrest
    obtain ⟨key, hkey, rfl⟩ : ∃ key value, e = (.text key, value) := by
      obtain ⟨key, -, hkey, -⟩ := he
      exact ⟨key, e.2, Prod.ext hkey rfl⟩
    refine ⟨(key, hkey) :: others, ?_, List.forall_mem_cons.2 ⟨he, hnumbers⟩⟩
    rw [List.mapM_cons, hothers]
    rfl

theorem IsCanvasNumber.isNumber {key : String} (h : IsCanvasNumber (.text key, v)) :
    key ∈ Canvas.layoutKeys ∧ v.IsNumber := by
  obtain ⟨_, hkey, ⟨⟩, hvalue⟩ := h
  refine ⟨hkey, ?_⟩
  rcases hvalue with ⟨x, rfl, -⟩ | ⟨-, i, rfl⟩
  · exact ⟨_, rfl⟩
  · exact ⟨_, rfl⟩

theorem IsCanvasNumber.exists_real {key : String} (h : IsCanvasNumber (.text key, v))
    (hkey : key ≠ "spiral_samples") : ∃ x, v = .real x ∧ x.isFinite = true := by
  obtain ⟨_, -, ⟨⟩, hvalue⟩ := h
  exact hvalue.resolve_right fun h => hkey h.1

theorem IsSide.hasDouble (h : IsSide v) : ∃ q, v.quantity? = some q ∧ q.hasDouble = true := by
  obtain ⟨q, hq, hfinite, -⟩ := h
  refine ⟨q, hq, ?_⟩
  cases q with
  | real x => rfl
  | _ => exact hfinite

/-- The canvas of settings is that of their size and their named numbers. -/
theorem exists_canvas_eq (hentries : s.canvasNumbers = .mapping entries)
    (h : ∀ e ∈ entries, IsCanvasNumber e) :
    ∃ others, s.canvas = Canvas.ofSize s.size.1 s.size.2 others ∧
      (∀ e ∈ others, IsCanvasNumber (.text e.1, e.2)) ∧ (entries = [] → others = []) := by
  obtain ⟨others, hothers, hnumbers⟩ := exists_mapM_named? h
  refine ⟨others, ?_, hnumbers, ?_⟩
  · simp only [canvas, hentries, hothers]
  · rintro rfl
    exact (Option.some.inj hothers).symm

/-- A canvas of checked settings is made, or one of its numbers is refused by a
fault. -/
theorem Checked.ends_canvas (h : s.Checked) : Ends (fun _ => True) Failure.IsFault s.canvas := by
  obtain ⟨entries, hentries, hchecked⟩ := h.canvasNumbers
  obtain ⟨others, hcanvas, hnumbers, -⟩ := exists_canvas_eq hentries hchecked
  have hfit : Canvas.SizeFit s.size.1 s.size.2 others :=
    ⟨h.width.hasDouble, h.height.hasDouble, fun e he => (hnumbers e he).isNumber.1,
      fun e he => (hnumbers e he).isNumber.2⟩
  rw [hcanvas]
  refine (Canvas.ends_ofSize s.size.1 s.size.2 others).mono (fun _ _ => trivial) fun f hf => ?_
  exact hf.resolve_right (not_not.2 hfit)

/-! ## Presets -/

def IsCollection : Datum → Prop
  | .list _ | .mapping _ => True
  | _ => False

theorem isGap_presets : ∀ p ∈ presets, Datum.IsGap p.2 := by
  have hrange : ∀ p ∈ presets, p.2.isFinite = true ∧ Datum.minGap ≤ p.2 ∧ p.2 ≤ Datum.maxGap := by
    decide +kernel
  intro p hp
  obtain ⟨hfinite, hmin, hmax⟩ := hrange p hp
  exact ⟨hfinite, hmin, hmax⟩

theorem refusal_cases (v : Datum) (fault : List Char → Fault) :
    (refusal v fault).IsFault ∨ refusal v fault = .impossibleValue ∧ v.hasDisplay = false := by
  unfold refusal
  split_ifs with h
  · exact .inl ⟨_, rfl⟩
  · exact .inr ⟨rfl, Bool.eq_false_iff.2 h⟩

/-- A preset is found, or its name is refused: by a fault, or as a value that
cannot be looked up or shown. -/
theorem ends_ofPreset (name : Datum) :
    Ends Checked (fun f => f.IsFault ∨ (f = .misfit ∧ IsCollection name) ∨
      f = .impossibleValue ∧ name.hasDisplay = false) (ofPreset name) := by
  cases name with
  | text s =>
    simp only [ofPreset]
    cases hlookup : presets.lookup s with
    | none => exact .inl ⟨_, rfl⟩
    | some gap =>
      obtain ⟨l, r, hmem, -⟩ := List.lookup_eq_some_iff.1 hlookup
      have hgap := isGap_presets (s, gap) (by rw [hmem]; simp)
      exact { checked_usual with gap := ⟨gap, rfl, hgap⟩ }
  | list _ => exact .inr (.inl ⟨rfl, trivial⟩)
  | mapping _ => exact .inr (.inl ⟨rfl, trivial⟩)
  | _ => exact (refusal_cases _ .unknownPreset).imp_right .inr

/-! ## Fields -/

theorem isSide_real {x : Binary64} (hx : x.isFinite = true) (h : ¬x ≤ 0) : IsSide (.real x) :=
  ⟨_, rfl, hx, Binary64.lt_of_not_le (Binary64.isNaN_of_isFinite hx) Binary64.isNaN_zero h⟩

/-- A size with a side beyond all doubles, where the sides before it are read. -/
inductive SizeUnreported : Datum → Prop
  | width {width height : Datum} (hwidth : width.IsBeyond) : SizeUnreported (.list [width, height])
  | height {width height : Datum} {x : Binary64} (hwidth : width.readNumber "canvas width" = .ok x)
    (hheight : height.IsBeyond) : SizeUnreported (.list [width, height])

theorem ends_sizeOf (v : Datum) :
    Ends (fun size => IsSide size.1 ∧ IsSide size.2)
      (fun f => f.IsFault ∨ f = .tooLarge ∧ SizeUnreported v) (sizeOf v) := by
  unfold sizeOf
  split
  next width height =>
    refine ((Datum.ends_readNumber _ width).with_eq.mono (fun _ h => h) ?_).bind ?_
    · intro f hf
      exact hf.isFault_or.imp_right (And.imp_right .width)
    rintro x ⟨hwidth, hx⟩
    refine ((Datum.ends_readNumber _ height).mono (fun _ h => h) ?_).bind fun y hy => ?_
    · intro f hf
      exact hf.isFault_or.imp_right (And.imp_right (.height hwidth))
    refine Ends.guard ?_ fun hpos => ?_
    · intro _
      exact .inl ⟨.canvasSize, rfl⟩
    · obtain ⟨hx', hy'⟩ := not_or.1 fun h => hpos (by simpa using h)
      exact ⟨isSide_real hx hx', isSide_real hy hy'⟩
  next => exact .inl ⟨.canvasShape, rfl⟩

theorem SizeUnreported.sizeOf_eq (h : SizeUnreported v) : sizeOf v = .error .tooLarge := by
  cases h with
  | width hwidth => exact bind_eq_error_iff.2 (.inl (Datum.readNumber_of_isBeyond _ hwidth))
  | height hwidth hheight =>
    exact bind_eq_error_iff.2 (.inr ⟨_, hwidth, bind_eq_error_iff.2
      (.inl (Datum.readNumber_of_isBeyond _ hheight))⟩)

/-- A canvas number beyond all doubles, and a name with too many digits to be
shown as unknown. -/
inductive NumberUnreported : Datum × Datum → Failure → Prop
  | beyond {key : String} {v : Datum} (hkey : key ∈ Canvas.layoutKeys)
    (hsamples : key ≠ "spiral_samples") (hv : v.IsBeyond) : NumberUnreported (.text key, v) .tooLarge
  | digits {key v : Datum} (hkey : key.hasDisplay = false) :
    NumberUnreported (key, v) .impossibleValue

theorem ends_canvasNumberOf (e : Datum × Datum) :
    Ends IsCanvasNumber (fun f => f.IsFault ∨ NumberUnreported e f) (canvasNumberOf e) := by
  obtain ⟨key, v⟩ := e
  cases key with
  | text key =>
    unfold canvasNumberOf
    dsimp only
    split_ifs with hkey hsamples
    · exact .inl ⟨_, rfl⟩
    · split
      next i => exact ⟨key, by simpa using hkey, rfl, .inr ⟨hsamples, i, rfl⟩⟩
      next => exact .inl ⟨.samplesKind, rfl⟩
    · refine ((Datum.ends_readNumber _ v).mono (fun _ h => h) ?_).bind fun x hx => ?_
      · intro f hf
        refine hf.isFault_or.imp_right ?_
        rintro ⟨rfl, hv⟩
        exact .beyond (by simpa using hkey) hsamples hv
      · exact ⟨key, by simpa using hkey, rfl, .inl ⟨x, rfl, hx⟩⟩
  | _ =>
    refine (refusal_cases _ .layoutKey).imp_right fun h => ?_
    rw [h.1]
    exact .digits h.2

theorem NumberUnreported.canvasNumberOf_eq {e : Datum × Datum} (h : NumberUnreported e f) :
    canvasNumberOf e = .error f := by
  cases h with
  | beyond hkey hsamples hv =>
    simp only [canvasNumberOf, List.contains_iff_mem.2 hkey, hsamples,
      Datum.readNumber_of_isBeyond _ hv]
    rfl
  | @digits key v hkey =>
    cases key with
    | int i =>
      show Except.error (refusal (.int i) .layoutKey) = _
      rw [refusal, hkey]
      rfl
    | _ => cases hkey

/-- Canvas numbers the first of which that does not pass is unreported. -/
inductive NumbersUnreported : Datum → Failure → Prop
  | intro {front back taken : List (Datum × Datum)} {e : Datum × Datum} {f : Failure}
    (hfront : front.mapM canvasNumberOf = .ok taken) (he : NumberUnreported e f) :
    NumbersUnreported (.mapping (front ++ e :: back)) f

theorem ends_canvasNumbersOf (v : Datum) :
    Ends (fun numbers => ∃ entries, numbers = .mapping entries ∧ ∀ e ∈ entries, IsCanvasNumber e)
      (fun f => f.IsFault ∨ NumbersUnreported v f) (canvasNumbersOf v) := by
  cases v with
  | null => exact ⟨[], rfl, by simp⟩
  | mapping entries =>
    show Ends _ _ (Datum.mapping <$> entries.mapM canvasNumberOf)
    cases hentries : entries.mapM canvasNumberOf with
    | ok taken =>
      refine ⟨taken, rfl, fun o ho => ?_⟩
      obtain ⟨e, -, he⟩ := exists_of_mem_forall₂ (mapM_eq_ok_iff.1 hentries) o ho
      exact (ends_canvasNumberOf e).of_ok he
    | error f =>
      obtain ⟨front, e, back, rfl, ⟨taken, hfront⟩, he⟩ := mapM_eq_error_iff.1 hentries
      exact ((ends_canvasNumberOf e).of_error he).imp_right (.intro hfront)
  | _ => exact .inl ⟨.layoutKind, rfl⟩

theorem NumbersUnreported.canvasNumbersOf_eq (h : NumbersUnreported v f) :
    canvasNumbersOf v = .error f := by
  obtain ⟨hfront, he⟩ := h
  exact map_eq_error_iff.2 (mapM_eq_error_iff.2 ⟨_, _, _, rfl, ⟨_, hfront⟩, he.canvasNumberOf_eq⟩)

theorem ends_seedOf (v : Datum) : Ends (fun _ => True) Failure.IsFault (seedOf v) := by
  cases v with
  | null | int _ => trivial
  | _ => exact ⟨.seedKind, rfl⟩

/-! ## Data -/

/-- The preset that data names, or the usual one. -/
def presetIn (entries : List (Datum × Datum)) : Except Failure Settings :=
  ofPreset ((Datum.lookup? "preset" entries).getD (.text "default"))

/-- The values of data that are refused without a fault, each where all that is
looked at before it passes. -/
inductive Unreported (entries : List (Datum × Datum)) : Failure → Prop
  /-- A list or a mapping cannot be looked up. -/
  | presetKind {v : Datum} (hversion : (Datum.lookup? "motion" entries).any isVersion = true)
    (h : Datum.lookup? "preset" entries = some v) (hv : IsCollection v) : Unreported entries .misfit
  /-- A whole number of too many digits cannot be shown. -/
  | presetDigits {v : Datum} (hversion : (Datum.lookup? "motion" entries).any isVersion = true)
    (h : Datum.lookup? "preset" entries = some v) (hv : v.hasDisplay = false) :
    Unreported entries .impossibleValue
  | gap {base : Settings} {v : Datum}
    (hversion : (Datum.lookup? "motion" entries).any isVersion = true)
    (hbase : presetIn entries = .ok base) (h : Datum.lookup? "gap" entries = some v)
    (hv : v.IsBeyond) : Unreported entries .tooLarge
  | canvas {base : Settings} {gap v : Datum}
    (hversion : (Datum.lookup? "motion" entries).any isVersion = true)
    (hbase : presetIn entries = .ok base)
    (hgap : readOr readGap base.gap (present? entries "gap") = .ok gap)
    (h : Datum.lookup? "canvas" entries = some v) (hv : SizeUnreported v) :
    Unreported entries .tooLarge
  | layout {base : Settings} {gap v : Datum} {size : Datum × Datum} {f : Failure}
    (hversion : (Datum.lookup? "motion" entries).any isVersion = true)
    (hbase : presetIn entries = .ok base)
    (hgap : readOr readGap base.gap (present? entries "gap") = .ok gap)
    (hsize : readOr sizeOf base.size (present? entries "canvas") = .ok size)
    (h : Datum.lookup? "layout" entries = some v) (hv : NumbersUnreported v f) :
    Unreported entries f

theorem lookup?_of_present? {key : String} (h : present? entries key = some v) :
    Datum.lookup? key entries = some v := by
  unfold present? at h
  split at h
  · cases h
  · exact h

theorem ends_readOr {α : Type} {P : α → Prop} {Q : Failure → Prop} {given : Option Datum}
    {usual : α} {read : Datum → Except Failure α} (hread : ∀ v, given = some v → Ends P Q (read v))
    (husual : P usual) : Ends P Q (readOr read usual given) := by
  cases given with
  | some v => exact hread v rfl
  | none => exact husual

theorem ends_readGap (v : Datum) :
    Ends (fun gap => ∃ x, gap = .real x ∧ Datum.IsGap x) (Datum.Refused "gap" v) (readGap v) :=
  (Datum.ends_readGap v).map fun x hx => ⟨x, rfl, hx⟩

theorem present?_of_lookup? {key : String} (h : Datum.lookup? key entries = some v)
    (hv : v ≠ .null) : present? entries key = some v := by
  unfold present?
  rw [h]
  cases v with
  | null => exact absurd rfl hv
  | _ => rfl

/-- How a value of data is refused. -/
def ValueRefused (entries : List (Datum × Datum)) (f : Failure) : Prop :=
  f.IsFault ∨ Unreported entries f

section Values

variable (hversion : (Datum.lookup? "motion" entries).any isVersion = true)
include hversion

theorem ends_presetIn : Ends Checked (ValueRefused entries) (presetIn entries) := by
  refine (ends_ofPreset _).mono (fun _ h => h) fun f hf => hf.imp_right fun hf => ?_
  cases hpreset : Datum.lookup? "preset" entries with
  | none =>
    rw [hpreset] at hf
    exact absurd hf (by simp [IsCollection, Datum.hasDisplay])
  | some v =>
    rw [hpreset] at hf
    rcases hf with ⟨rfl, hv⟩ | ⟨rfl, hv⟩
    · exact .presetKind hversion hpreset hv
    · exact .presetDigits hversion hpreset hv

variable {base : Settings} (hbase : presetIn entries = .ok base)
include hbase

theorem ends_gapIn (husual : ∃ x, base.gap = .real x ∧ Datum.IsGap x) :
    Ends (fun gap => ∃ x, gap = .real x ∧ Datum.IsGap x) (ValueRefused entries)
      (readOr readGap base.gap (present? entries "gap")) := by
  refine ends_readOr (fun v hv => (ends_readGap v).mono (fun _ h => h) fun f hf => ?_) husual
  refine hf.isFault_or.imp_right ?_
  rintro ⟨rfl, hbeyond⟩
  exact .gap hversion hbase (lookup?_of_present? hv) hbeyond

variable {gap : Datum} (hgap : readOr readGap base.gap (present? entries "gap") = .ok gap)
include hgap

theorem ends_sizeIn (husual : IsSide base.size.1 ∧ IsSide base.size.2) :
    Ends (fun size => IsSide size.1 ∧ IsSide size.2) (ValueRefused entries)
      (readOr sizeOf base.size (present? entries "canvas")) := by
  refine ends_readOr (fun v hv => (ends_sizeOf v).mono (fun _ h => h) fun f hf => ?_) husual
  refine hf.imp_right ?_
  rintro ⟨rfl, hunreported⟩
  exact .canvas hversion hbase hgap (lookup?_of_present? hv) hunreported

theorem ends_numbersIn {size : Datum × Datum}
    (hsize : readOr sizeOf base.size (present? entries "canvas") = .ok size) :
    Ends (fun numbers => ∃ others, numbers = .mapping others ∧ ∀ e ∈ others, IsCanvasNumber e)
      (ValueRefused entries)
      (canvasNumbersOf ((Datum.lookup? "layout" entries).getD .null)) := by
  refine (ends_canvasNumbersOf _).mono (fun _ h => h) fun f hf => hf.imp_right fun hrefused => ?_
  cases hlookup : Datum.lookup? "layout" entries with
  | none =>
    rw [hlookup] at hrefused
    cases hrefused
  | some v =>
    rw [hlookup] at hrefused
    exact .layout hversion hbase hgap hsize hlookup hrefused

end Values

/-- Data gives checked settings, of which a canvas can be made, or it is refused
by a fault or for an unreported value. -/
theorem ends_ofData (entries : List (Datum × Datum)) :
    Ends (fun s => s.Checked ∧ ∃ c, s.canvas = .ok c)
      (fun f => f.IsFault ∨ Unreported entries f) (ofData (.mapping entries)) := by
  unfold ofData
  refine Ends.guard (fun _ => .inl ⟨.settingsVersion, rfl⟩) fun hversion => ?_
  have hversion : (Datum.lookup? "motion" entries).any isVersion = true := by simpa using hversion
  refine (ends_presetIn hversion).with_eq.bind ?_
  rintro base ⟨hpreset, hbase⟩
  refine (ends_gapIn hversion hpreset hbase.gap).with_eq.bind ?_
  rintro gap ⟨hreadGap, hgap⟩
  refine (ends_sizeIn hversion hpreset hreadGap ⟨hbase.width, hbase.height⟩).with_eq.bind ?_
  rintro size ⟨hreadSize, hsize⟩
  refine (ends_numbersIn hversion hpreset hreadGap hreadSize).bind fun numbers hnumbers => ?_
  refine ((ends_seedOf _).mono (fun _ h => h) fun _ => .inl).bind fun seed _ => ?_
  have hchecked : Checked { base with gap, size, canvasNumbers := numbers, seed } :=
    ⟨hgap, hsize.1, hsize.2, hnumbers⟩
  refine (hchecked.ends_canvas.with_eq.mono (fun _ h => h) fun _ => .inl).bind fun c hc => ?_
  exact ⟨hchecked, c, hc.1⟩

theorem checked_ofFile {read? : List Char → Option Datum} {path : String} {content : Option String}
    (h : ofFile read? path content = .ok s) : s.Checked := by
  cases content with
  | none => cases h
  | some content =>
    rw [ofFile] at h
    split_ifs at h
    cases hread : read? (Text.lineFeeds content.toList) with
    | none =>
      rw [hread] at h
      cases h
    | some data =>
      simp only [hread] at h
      split_ifs at h
      cases data with
      | mapping entries => exact ((ends_ofData entries).of_ok h).1
      | _ => cases h

/-! ## Unreported values -/

theorem ofPreset_of_isCollection (h : IsCollection v) : ofPreset v = .error .misfit := by
  cases v with
  | list _ | mapping _ => rfl
  | _ => exact h.elim

theorem ofPreset_of_hasDisplay (h : v.hasDisplay = false) :
    ofPreset v = .error .impossibleValue := by
  cases v with
  | int i =>
    show Except.error (refusal (.int i) .unknownPreset) = _
    rw [refusal, h]
    rfl
  | _ => cases h

/-- A preset that is refused decides about the data. -/
theorem ofData_of_presetIn (hversion : (Datum.lookup? "motion" entries).any isVersion = true)
    (h : presetIn entries = .error f) : ofData (.mapping entries) = .error f := by
  rw [presetIn] at h
  simp only [ofData, hversion, h]
  rfl

theorem presetIn_of_lookup? (h : Datum.lookup? "preset" entries = some v) :
    presetIn entries = ofPreset v := by
  rw [presetIn, h, Option.getD_some]

theorem Unreported.not_isFault (h : Unreported entries f) : ¬f.IsFault := by
  rintro ⟨fault, rfl⟩
  cases h with
  | layout _ _ _ _ _ hv =>
    obtain ⟨-, he⟩ := hv
    cases he

/-- What is unreported is refused without a fault. -/
theorem Unreported.ofData_eq (h : Unreported entries f) :
    ofData (.mapping entries) = .error f := by
  cases h with
  | presetKind hversion h hv =>
    refine ofData_of_presetIn hversion ?_
    rw [presetIn_of_lookup? h, ofPreset_of_isCollection hv]
  | presetDigits hversion h hv =>
    refine ofData_of_presetIn hversion ?_
    rw [presetIn_of_lookup? h, ofPreset_of_hasDisplay hv]
  | @gap base v hversion hbase h hv =>
    have hpresent := present?_of_lookup? h (by rintro rfl; exact hv)
    rw [presetIn] at hbase
    simp only [ofData, hversion, hbase, hpresent, readOr, readGap, Datum.readGap_of_isBeyond hv]
    rfl
  | canvas hversion hbase hgap h hv =>
    have hpresent := present?_of_lookup? h (by rintro rfl; cases hv)
    have hsize : ∀ usual, readOr sizeOf usual (present? entries "canvas") = .error .tooLarge := by
      intro usual
      rw [hpresent, readOr, hv.sizeOf_eq]
    rw [presetIn] at hbase
    simp only [ofData, hversion, hbase, bind, Except.bind, hgap, hsize]
    rfl
  | layout hversion hbase hgap hsize h hv =>
    rw [presetIn] at hbase
    simp only [ofData, hversion, hbase, bind, Except.bind, hgap, hsize, h, Option.getD_some,
      hv.canvasNumbersOf_eq]
    rfl

end Settings

end KineticText
