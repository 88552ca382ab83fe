import KineticText.Canvas.PowerSeries
import KineticText.CommandLine.Outcome
import KineticText.Proofs.Canvas.Position
import KineticText.Proofs.Composition.Answer
import KineticText.Proofs.Settings.Checked

/-!
# Limits of a run

Settings come from a file, from a preset, or are the usual ones, and flags
replace their gap and their sides.  In every run that ends in a report the gap is
in range, and the sides of the canvas are positive and finite, but for a side
that is itself given as an infinite or undefined number.  With finite sides, and
fonts that are not negative, all positions in the report are finite
(`CommandLine.run_limits`).
-/

namespace KineticText

namespace Settings

variable {s : Settings} {c : Canvas} {v : Datum} {p q : Quantity} {others : List (String × Datum)}

/-! ## Sides and margins -/

/-- A side of a canvas is finite and positive, or the value given for it is a
double that is not finite. -/
def SideOf (v : Datum) (q : Quantity) : Prop :=
  ∃ w, q = .real w ∧ (w.isFinite = true ∧ 0 < w ∨ w.isFinite = false ∧ v = .real w)

theorem eq_real_of_quantity? {w : Binary64} (h : v.quantity? = some (.real w)) : v = .real w := by
  cases v with
  | real x =>
    cases h
    rfl
  | _ => cases h

theorem sideOf_of_quantity? (hp : v.quantity? = some p) (hdouble : p.hasDouble = true)
    (hq : q = p.rounded) (hpos : ¬q ≤ 0) : SideOf v q := by
  refine ⟨p.toBinary64, hq, ?_⟩
  cases hfinite : p.toBinary64.isFinite with
  | true =>
    have hnot : ¬p.toBinary64 ≤ 0 := by
      rw [hq] at hpos
      exact fun h => hpos (Quantity.le_zero_of_toBinary64_le h)
    have hnan := Binary64.isNaN_of_isFinite hfinite
    exact .inl ⟨rfl, Binary64.lt_of_not_le hnan Binary64.isNaN_zero hnot⟩
  | false =>
    cases p with
    | real w => exact .inr ⟨rfl, eq_real_of_quantity? hp⟩
    | _ => exact absurd hdouble (Bool.eq_false_iff.1 hfinite)

theorem abs_value_twentieth_le : |(0.05 : Binary64).value| ≤ 1 := by
  have hone : (1 : Binary64).value = (1 : ℤ) := Binary64.value_ofInt (by decide)
  have hfinite : (0.05 : Binary64).isFinite = true := by decide +kernel
  have hle : (0.05 : Binary64).value ≤ (1 : Binary64).value :=
    (Binary64.value_le_value_iff hfinite (by decide +kernel)).2 (by decide +kernel)
  rw [abs_of_nonneg ((Binary64.value_nonneg_iff hfinite).2 (by decide +kernel))]
  simpa [hone] using hle

/-- What replaces a checked side is where a side that is not finite comes from. -/
theorem SideOf.of_getD {given : Option Datum} {usual : Datum} (husual : IsSide usual)
    (h : SideOf (given.getD usual) q) :
    ∃ w, q = .real w ∧ (w.isFinite = true ∧ 0 < w ∨ w.isFinite = false ∧ given = some (.real w)) := by
  obtain ⟨w, hq, hside⟩ := h
  refine ⟨w, hq, hside.imp_right fun hnot => ⟨hnot.1, ?_⟩⟩
  obtain ⟨hinfinite, hv⟩ := hnot
  cases given with
  | some v => exact congrArg some hv
  | none =>
    obtain ⟨p, hp, hfinite, -⟩ := husual
    obtain rfl : usual = .real w := hv
    cases hp
    exact absurd hfinite (Bool.eq_false_iff.1 hinfinite)

theorem hasFiniteSides_of_sized {width height : Datum} (h : Canvas.Sized width height others c)
    (hnumbers : ∀ e ∈ others, IsCanvasNumber (.text e.1, e.2))
    (hwidth : c.width.toBinary64.isFinite = true)
    (hheight : c.height.toBinary64.isFinite = true) : c.HasFiniteSides := by
  obtain ⟨w, -, -, hw⟩ := h.width
  obtain ⟨r, -, -, hr⟩ := h.height
  refine ⟨⟨_, hw, by rwa [hw] at hwidth⟩, ⟨_, hr, by rwa [hr] at hheight⟩, ?_⟩
  have hnumber : ∃ x, (others.lookup "margin").getD (.real (c.width.toBinary64.smaller
      c.height.toBinary64 * 0.05)) = .real x ∧ x.isFinite = true := by
    have hkey : "margin" ≠ "spiral_samples" := by decide
    refine Canvas.lookup_getD (fun v hv => IsCanvasNumber.exists_real (hnumbers _ hv) hkey) ⟨_, rfl, ?_⟩
    refine Binary64.isFinite_mul ?_ (by decide +kernel) abs_value_twentieth_le
    rw [Binary64.smaller]
    split_ifs
    · exact hheight
    · exact hwidth
  obtain ⟨x, hx, hfinite⟩ := hnumber
  have hmargin := h.margin
  rw [hx] at hmargin
  exact ⟨x, (Option.some.inj hmargin).symm, hfinite⟩

/-- A canvas without numbers of its own has the usual fonts. -/
theorem fontsNonneg_of_sized {width height : Datum} (h : Canvas.Sized width height [] c) :
    c.FontsNonneg where
  fontSize := ⟨_, h.fontSize, by decide +kernel⟩
  glyphWidthRatio := ⟨_, h.glyphWidthRatio, by decide +kernel⟩
  lineHeightRatio := ⟨_, h.lineHeightRatio, by decide +kernel⟩

theorem canvasNumbers_of_ofPreset {name : Datum} (h : ofPreset name = .ok s) :
    s.canvasNumbers = .mapping [] := by
  cases name with
  | text t =>
    simp only [ofPreset] at h
    cases hlookup : presets.lookup t with
    | none =>
      rw [hlookup] at h
      cases h
    | some gap =>
      rw [hlookup] at h
      cases h
      rfl
  | _ => cases h

end Settings

theorem Composition.position_isFinite [Trigonometry] {text gap : Datum} {c : Canvas} {g g' : Generator}
    {r : Composition} (h : Composition.compose text gap c g = .ok (r, g'))
    (hc : c.HasFiniteSides) (hfonts : c.FontsNonneg) : ∀ t ∈ r.segments, t.position.IsFinite := by
  obtain ⟨γ, s, l, -, -, hlayout, rfl, -⟩ := Composition.compose_eq_ok_iff.1 h
  exact Canvas.position_isFinite hlayout hc hfonts

namespace CommandLine

variable {i : Invocation} {e : Environment} {base s : Settings}

theorem Invocation.checked_base (h : i.base e = .ok base) :
    base.Checked ∧ (i.settingsFile = none → base.canvasNumbers = .mapping []) := by
  unfold Invocation.base at h
  cases hfile : i.settingsFile with
  | some v =>
    rw [hfile] at h
    refine ⟨?_, by rintro ⟨⟩⟩
    cases v with
    | text path => exact Settings.checked_ofFile h
    | _ => cases h
  | none =>
    rw [hfile] at h
    cases hpreset : i.preset with
    | some name =>
      rw [hpreset] at h
      exact ⟨(Settings.ends_ofPreset name).of_ok h, fun _ => Settings.canvasNumbers_of_ofPreset h⟩
    | none =>
      rw [hpreset] at h
      cases h
      exact ⟨Settings.checked_usual, fun _ => rfl⟩

theorem Invocation.settings_eq_ok (h : i.settings e = .ok s) :
    ∃ base, i.base e = .ok base ∧ (∃ x, s.gap = .real x ∧ Datum.IsGap x) ∧
      s.size = (i.width.getD base.size.1, i.height.getD base.size.2) ∧
      s.canvasNumbers = base.canvasNumbers := by
  obtain ⟨base, hbase, h⟩ := bind_eq_ok_iff.1 h
  obtain ⟨gap, hgap, h⟩ := bind_eq_ok_iff.1 h
  cases h
  have hchecked := (checked_base hbase).1
  refine ⟨base, hbase, ?_, rfl, rfl⟩
  have hends : Ends (fun gap => ∃ x, gap = .real x ∧ Datum.IsGap x) (fun _ => True)
      (Settings.readOr Settings.readGap base.gap i.gap) :=
    Settings.ends_readOr
      (fun v _ => (Settings.ends_readGap v).mono (fun _ h => h) fun _ _ => trivial) hchecked.gap
  exact hends.of_ok hgap

/-! ## Runs -/

section Runs

variable [Trigonometry] {r : Composition}

/-- The composition of an invocation is that of its script on a canvas made of
its settings. -/
theorem Invocation.exists_compose_eq_ok (h : i.compose e = .ok r) :
    ∃ s c, i.settings e = .ok s ∧ s.canvas = .ok c ∧ ∃ script g g', i.script e = .ok script ∧
      Composition.compose script s.gap c g = .ok (r, g') := by
  obtain ⟨s, hs, h⟩ := bind_eq_ok_iff.1 h
  obtain ⟨script, hscript, h⟩ := bind_eq_ok_iff.1 h
  obtain ⟨c, hc, h⟩ := bind_eq_ok_iff.1 h
  obtain ⟨g, -, h⟩ := bind_eq_ok_iff.1 h
  obtain ⟨⟨r', g'⟩, hr, h⟩ := bind_eq_ok_iff.1 h
  cases h
  exact ⟨s, c, hs, hc, script, g, g', hscript, hr⟩

/-- A report that an invocation prints is that of a composition on a canvas, both
made of its settings. -/
structure Invocation.Reports (i : Invocation) (e : Environment) (s : Settings) (c : Canvas)
    (r : Composition) (d : Datum) : Prop where
  settings : i.settings e = .ok s
  canvas : s.canvas = .ok c
  composition : ∃ script g g', i.script e = .ok script ∧
    Composition.compose script s.gap c g = .ok (r, g')
  report : report r i.time = .ok d

theorem exists_reports {arguments : List String} {d : Datum}
    (h : (run arguments e).report = .ok (some d)) :
    ∃ i s c r, Invocation.read? arguments = some i ∧ i.Reports e s c r d := by
  unfold run at h
  cases hread : Invocation.read? arguments with
  | none =>
    rw [hread] at h
    cases h
  | some i =>
    simp only [hread, Invocation.run] at h
    by_cases hexamples : i.examples
    · rw [if_pos hexamples] at h
      cases h
    · rw [if_neg hexamples] at h
      cases hcompose : i.compose e with
      | error f =>
        rw [hcompose] at h
        cases h
      | ok r =>
        rw [hcompose] at h
        obtain ⟨d', hreport, hd⟩ := map_eq_ok_iff.1 h
        obtain rfl := Option.some.inj hd
        obtain ⟨s, c, hs, hc, hcomposition⟩ := Invocation.exists_compose_eq_ok hcompose
        exact ⟨i, s, c, r, rfl, hs, hc, hcomposition, hreport⟩

/-- In a run that ends in a report the gap is in range, whatever reader turns the
settings file into data.  A side of the canvas is finite and positive, unless its
flag gives it as a double that is not finite.  Without a settings file fonts are
not negative, and where they are not and both sides are finite, every segment of
the report is at a finite position. -/
theorem run_limits {arguments : List String} {d : Datum}
    (h : (run arguments e).report = .ok (some d)) :
    ∃ i s c r, Invocation.read? arguments = some i ∧ i.Reports e s c r d ∧
      (∃ x, s.gap = .real x ∧ Datum.IsGap x) ∧
      (∃ w, c.width = .real w ∧
        (w.isFinite = true ∧ 0 < w ∨ w.isFinite = false ∧ i.width = some (.real w))) ∧
      (∃ w, c.height = .real w ∧
        (w.isFinite = true ∧ 0 < w ∨ w.isFinite = false ∧ i.height = some (.real w))) ∧
      (i.settingsFile = none → c.FontsNonneg) ∧
      (c.width.toBinary64.isFinite = true → c.height.toBinary64.isFinite = true →
        c.FontsNonneg → ∀ t ∈ r.segments, t.position.IsFinite) := by
  obtain ⟨i, s, c, r, hread, hreports⟩ := exists_reports h
  obtain ⟨script, g, g', -, hcompose⟩ := hreports.composition
  obtain ⟨base, hbase, hgap, hsize, hnumbers⟩ := Invocation.settings_eq_ok hreports.settings
  obtain ⟨hchecked, hfile⟩ := Invocation.checked_base hbase
  obtain ⟨entries, hentries, hcanvasNumbers⟩ := hchecked.canvasNumbers
  obtain ⟨others, hcanvas, hothers, hnil⟩ :=
    Settings.exists_canvas_eq (hnumbers.trans hentries) hcanvasNumbers
  have hsized := (Canvas.ends_ofSize s.size.1 s.size.2 others).of_ok
    (hcanvas.symm.trans hreports.canvas)
  rw [hsize] at hsized
  refine ⟨i, s, c, r, hread, hreports, hgap, ?_, ?_, ?_, ?_⟩
  · obtain ⟨q, hq, hdouble, hwidth⟩ := hsized.width
    exact (Settings.sideOf_of_quantity? hq hdouble hwidth c.width_pos).of_getD hchecked.width
  · obtain ⟨q, hq, hdouble, hheight⟩ := hsized.height
    exact (Settings.sideOf_of_quantity? hq hdouble hheight c.height_pos).of_getD hchecked.height
  · intro hnone
    have hentries' : entries = [] := by
      rw [hfile hnone] at hentries
      cases hentries
      rfl
    rw [hnil hentries'] at hsized
    exact Settings.fontsNonneg_of_sized hsized
  · intro hwidth hheight hfonts
    have hsides := Settings.hasFiniteSides_of_sized hsized hothers hwidth hheight
    exact Composition.position_isFinite hcompose hsides hfonts

end Runs

/-- Surroundings without files and without input. -/
def emptyEnvironment : Environment where
  file _ := none
  input := ""
  fallbackSeed := 0

/-- One letter with the gap of a preset on the usual canvas. -/
theorem run_limits_letter :
    ∃ d, (run ["-t", "a", "-p", "subtle"] emptyEnvironment).report = .ok (some d) ∧
      ∃ (i : Invocation) (s : Settings) (c : Canvas) (r : Composition),
        i.Reports emptyEnvironment s c r d ∧
        (∃ x, s.gap = .real x ∧ Datum.IsGap x) ∧ ∀ t ∈ r.segments, t.position.IsFinite := by
  have hrun : (run ["-t", "a", "-p", "subtle"] emptyEnvironment).report.map Option.isSome =
      .ok true := by
    decide +kernel
  obtain ⟨report, hreport, hsome⟩ := map_eq_ok_iff.1 hrun
  obtain ⟨d, rfl⟩ := Option.isSome_iff_exists.1 hsome
  obtain ⟨i, s, c, r, hread, hreports, hgap, hwidth, hheight, hfonts, hpositions⟩ :=
    run_limits hreport
  have hinvocation : Invocation.read? ["-t", "a", "-p", "subtle"] =
      some { text := some (.text "a"), preset := some (.text "subtle") } := rfl
  obtain rfl := Option.some.inj (hinvocation.symm.trans hread)
  obtain ⟨w, hw, ⟨hwFinite, -⟩ | ⟨-, ⟨⟩⟩⟩ := hwidth
  obtain ⟨x, hx, ⟨hxFinite, -⟩ | ⟨-, ⟨⟩⟩⟩ := hheight
  refine ⟨d, hreport, _, s, c, r, hreports, hgap, hpositions ?_ ?_ (hfonts rfl)⟩
  · rw [hw]
    exact hwFinite
  · rw [hx]
    exact hxFinite

/-- Settings whose fonts make a text smaller than any number. -/
def shrinkingFonts : Datum :=
  .mapping [(.text "motion", .int 1), (.text "canvas", .list [.int 10, .int 10]),
    (.text "layout", .mapping [(.text "font_size", .int (-10 ^ 308)),
      (.text "glyph_width_ratio", .int 10), (.text "spiral_samples", .int 1)])]

/-- A width that is not a number is taken from its flag, and puts a text at a
position that is none.  Fonts below zero are taken from data, and put a text on
a finite canvas at an infinite position. -/
theorem run_undefined :
    (Invocation.read? ["-t", "x", "-W", "nan"] =
        some { text := some (.text "x"), width := some (.real .nan) } ∧
      (run ["-t", "x", "-W", "nan"] emptyEnvironment).report.map Option.isSome = .ok true ∧
      (Invocation.compose { text := some (.text "x"), width := some (.real .nan) }
          emptyEnvironment).map (fun r => r.segments.map Segment.position) =
        .ok [⟨.real .nan, .real .nan⟩]) ∧
      ((Settings.ofData shrinkingFonts).bind fun s => s.compose (.text "x") 0).map
          (fun r => r.segments.map fun t => t.position.x) = .ok [.real (.infinity false)] := by
  refine ⟨⟨rfl, ?_, ?_⟩, ?_⟩
  · decide +kernel
  · decide +kernel
  · decide +kernel

end CommandLine

end KineticText
