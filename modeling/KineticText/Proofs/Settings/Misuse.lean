import KineticText.Canvas.PowerSeries
import KineticText.Proofs.Composition.Totality
import KineticText.Proofs.Settings.Checked

/-!
# Misused gaps and settings

A gap that is no number of seconds in range, and data that describes no
settings, are refused by a fault.  There are exceptions, all of them values that
an operation in front of the checks does not take: a whole number beyond all
doubles where a number is read, a collection as the name of a preset, and a
whole number of too many digits where a message shows it
(`Settings.refused_by_fault`).  Each of them is refused without a fault, wherever
in the data it stands (`Settings.Unreported`), if what is looked at before it
passes.
-/

namespace KineticText

namespace Schedule

theorem ends_gapOf (v : Datum) :
    Ends (fun γ => ∃ x, v.readNumber "gap" = .ok x ∧ x.toDecimal? = some γ)
      (Datum.Refused "gap" v) (gapOf v) := by
  rcases (Datum.ends_readNumber "gap" v).ok_or_error with ⟨x, hx, -⟩ | ⟨f, hf, hrefused⟩
  · obtain ⟨γ, hγ, hgap⟩ := Schedule.exists_gapOf hx
    rw [hgap]
    exact ⟨x, hx, hγ⟩
  · rw [gapOf, hf]
    exact hrefused

end Schedule

namespace Composition

variable {text v : Datum} {c : Canvas} {g : Generator}

/-- Where the searches of a composition end, nothing but its gap and its text
are refused. -/
theorem ends_compose [Trigonometry] (hc : c.HasDoubles)
    (hsearch : ∀ s, text = .text s → c.SearchesEnd g (Script.read s.toList).segments) :
    Ends (fun _ => True) (fun f => f.IsFault ∨ f = .tooLarge ∧ v.IsBeyond)
      (compose text v c g) := by
  rcases (Datum.ends_readNumber "gap" v).ok_or_error with ⟨x, hx, -⟩ | ⟨f, hf, hrefused⟩
  · obtain ⟨γ, -, hγ⟩ := Schedule.exists_gapOf hx
    by_cases htext : ∃ s, text = .text s
    · obtain ⟨s, rfl⟩ := htext
      obtain ⟨answer, hanswer⟩ := exists_compose hc hγ (hsearch s rfl)
      rw [String.ofList_toList] at hanswer
      rw [hanswer]
      trivial
    · rw [compose_of_not_text hγ (not_exists.1 htext)]
      exact .inl ⟨.scriptKind, rfl⟩
  · rw [compose_of_gap hf]
    exact hrefused.isFault_or

end Composition

namespace Settings

variable {entries : List (Datum × Datum)} {v : Datum} {base : Settings} {f : Failure}

/-! ## What is refused by a fault -/

/-- A gap is accepted or refused by a fault, unless it is a whole number beyond
all doubles, and so is data for settings, unless it holds an unreported value.
A composition whose searches end has a result or a fault for every gap but
these.  All unreported values end in other failures: a collection or a whole
number of too many digits as preset, and behind values that pass a gap, a side or
a canvas number beyond all doubles, and a name of a canvas number with too many
digits. -/
theorem refused_by_fault [Trigonometry] {c : Canvas} (hc : c.HasDoubles) (g : Generator) (text : Datum)
    (hsearch : ∀ s, text = .text s → c.SearchesEnd g (Script.read s.toList).segments) :
    (∀ v : Datum, ¬v.IsBeyond →
      Ends Datum.IsGap Failure.IsFault v.readGap ∧
        Ends (fun _ => True) Failure.IsFault (Schedule.gapOf v) ∧
        Ends (fun _ => True) Failure.IsFault (Composition.compose text v c g)) ∧
      (∀ v : Datum, v.IsBeyond →
        v.readGap = .error .tooLarge ∧ Schedule.gapOf v = .error .tooLarge ∧
          Composition.compose text v c g = .error .tooLarge) ∧
      (∀ data, (∀ entries, data ≠ .mapping entries) →
        ofData data = .error (.fault .settingsKind)) ∧
      (∀ entries, Ends (fun s => s.Checked ∧ ∃ c, s.canvas = .ok c)
        (fun f => f.IsFault ∨ Unreported entries f) (ofData (.mapping entries))) ∧
      (∀ entries f, Unreported entries f →
        ofData (.mapping entries) = .error f ∧ ¬f.IsFault) ∧
      ∀ entries, (Datum.lookup? "motion" entries).any isVersion = true →
        (ofData (.mapping entries) = .error .misfit ↔
          ∃ v, Datum.lookup? "preset" entries = some v ∧ IsCollection v) ∧
          (∀ v, Datum.lookup? "preset" entries = some v → v.hasDisplay = false →
            ofData (.mapping entries) = .error .impossibleValue) ∧
          ∀ v base, ofPreset ((Datum.lookup? "preset" entries).getD (.text "default")) = .ok base →
            Datum.lookup? "gap" entries = some v → v.IsBeyond →
              ofData (.mapping entries) = .error .tooLarge := by
  refine ⟨?_, ?_, ?_, ends_ofData, fun entries f h => ⟨h.ofData_eq, h.not_isFault⟩, ?_⟩
  · intro v hv
    have hfault {f : Failure} (h : f.IsFault ∨ f = .tooLarge ∧ v.IsBeyond) : f.IsFault :=
      h.resolve_right fun h => hv h.2
    refine ⟨?_, ?_, ?_⟩
    · exact (Datum.ends_readGap v).mono (fun _ h => h) fun _ hf => hfault hf.isFault_or
    · exact (Schedule.ends_gapOf v).mono (fun _ _ => trivial) fun _ hf => hfault hf.isFault_or
    · exact (Composition.ends_compose hc hsearch).mono (fun _ h => h) fun _ hf => hfault hf
  · intro v hv
    have hgap := Datum.readNumber_of_isBeyond "gap" hv
    refine ⟨Datum.readGap_of_isBeyond hv, ?_, Composition.compose_of_gap hgap text c g⟩
    rw [Schedule.gapOf, hgap]
    rfl
  · intro data hdata
    cases data with
    | mapping entries => exact absurd rfl (hdata entries)
    | _ => rfl
  · intro entries hversion
    refine ⟨⟨?_, ?_⟩, ?_, ?_⟩
    · intro hmisfit
      rcases (ends_ofData entries).of_error hmisfit with ⟨_, ⟨⟩⟩ | hunreported
      cases hunreported with
      | presetKind _ hv hcollection => exact ⟨_, hv, hcollection⟩
      | layout _ _ _ _ _ hnumbers =>
        obtain ⟨-, he⟩ := hnumbers
        cases he
    · rintro ⟨v, hv, hcollection⟩
      exact (Unreported.presetKind hversion hv hcollection).ofData_eq
    · intro v hv hdigits
      exact (Unreported.presetDigits hversion hv hdigits).ofData_eq
    · intro v base hbase hv hbeyond
      exact (Unreported.gap hversion hbase hv hbeyond).ofData_eq

/-- A gap that is a whole number of 401 digits is refused without a fault, and so
are settings with this number as gap, side or margin, with a list as preset, or
with a whole number of 4301 digits as preset or as the name of a canvas number. -/
theorem misuse_unreported :
    (Datum.int (10 ^ 400)).readGap = .error .tooLarge ∧
      ofData (.mapping [(.text "motion", .int 1), (.text "gap", .int (10 ^ 400))]) =
        .error .tooLarge ∧
      ofData (.mapping [(.text "motion", .int 1), (.text "preset", .list [])]) =
        .error .misfit ∧
      ofData (.mapping [(.text "motion", .int 1), (.text "preset", .int (tenPow 4300))]) =
        .error .impossibleValue ∧
      ofData (.mapping [(.text "motion", .int 1),
        (.text "canvas", .list [.int 5, .int (10 ^ 400)])]) = .error .tooLarge ∧
      ofData (.mapping [(.text "motion", .int 1),
        (.text "layout", .mapping [(.text "spiral_samples", .int 8),
          (.text "margin", .int (10 ^ 400))])]) = .error .tooLarge ∧
      ofData (.mapping [(.text "motion", .int 1),
        (.text "layout", .mapping [(.int (tenPow 4300), .null)])]) = .error .impossibleValue := by
  have hbeyond : (Datum.int (10 ^ 400)).IsBeyond := by decide +kernel
  have hdigits : (Datum.int (tenPow 4300)).hasDisplay = false := by decide +kernel
  have hside : (Datum.int 5).readNumber "canvas width" = .ok 5 := by decide +kernel
  refine ⟨Datum.readGap_of_isBeyond hbeyond, ?_, rfl, ?_, ?_, ?_, ?_⟩
  · exact (Unreported.gap rfl rfl rfl hbeyond).ofData_eq
  · exact (Unreported.presetDigits rfl rfl hdigits).ofData_eq
  · exact (Unreported.canvas rfl rfl rfl rfl (.height hside hbeyond)).ofData_eq
  · have hmargin : NumberUnreported (.text "margin", .int (10 ^ 400)) .tooLarge :=
      .beyond (by decide) (by decide) hbeyond
    exact (Unreported.layout rfl rfl rfl rfl rfl
      (@NumbersUnreported.intro [(.text "spiral_samples", .int 8)] _ _ _ _ rfl hmargin)).ofData_eq
  · have hname : NumberUnreported (.int (tenPow 4300), .null) .impossibleValue := .digits hdigits
    exact (Unreported.layout rfl rfl rfl rfl rfl
      (@NumbersUnreported.intro [] _ _ _ _ rfl hname)).ofData_eq

/-- A text on the small canvas, with a list and a whole number as gaps. -/
theorem refused_by_fault_smallCanvas :
    Canvas.smallCanvas.HasDoubles ∧
      (∀ s, Datum.text "a b" = .text s →
        Canvas.smallCanvas.SearchesEnd ⟨#[], 0⟩ (Script.read s.toList).segments) ∧
      ¬(Datum.list []).IsBeyond ∧ (Datum.int (10 ^ 400)).IsBeyond ∧
      Ends Datum.IsGap Failure.IsFault (Datum.list []).readGap ∧
      Composition.compose (.text "a b") (.int (10 ^ 400)) Canvas.smallCanvas ⟨#[], 0⟩ =
        .error .tooLarge := by
  have hdoubles := Canvas.hasDoubles_smallCanvas
  have hsearch (s : String) (_ : Datum.text "a b" = .text s) :=
    Canvas.searchesEnd_smallCanvas ⟨#[], 0⟩ (Script.read s.toList).segments
  have hlist : ¬(Datum.list []).IsBeyond := id
  have hbeyond : (Datum.int (10 ^ 400)).IsBeyond := by decide +kernel
  obtain ⟨haccepted, hrefused, -⟩ := refused_by_fault hdoubles ⟨#[], 0⟩ (.text "a b") hsearch
  exact ⟨hdoubles, hsearch, hlist, hbeyond, (haccepted _ hlist).1, (hrefused _ hbeyond).2.2⟩

end Settings

end KineticText
