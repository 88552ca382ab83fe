import KineticText.Datum.Number
import KineticText.Proofs.Number.Rounded
import KineticText.Proofs.Outcome

/-!
# Numbers read from data

A data value gives a setting a finite number, or it is refused with a fault that
names the setting.  There is one exception: a whole number beyond all doubles is
too large, and no fault says so (`Datum.ends_readNumber`,
`Datum.readNumber_of_isBeyond`).  Data without such a number anywhere in it is
that of `Datum.FitsDoubles`.

A whole number of too many digits cannot even be shown.  A value can be inspected
exactly where there is no such number in it (`Datum.hasInspection_eq_false_iff`).
-/

namespace KineticText

/-- A failure that is a mistake in the input. -/
def Failure.IsFault (f : Failure) : Prop := ∃ fault, f = .fault fault

/-- A fault whose message begins with a name. -/
def Failure.Names (name : String) (f : Failure) : Prop :=
  ∃ fault rest, f = .fault fault ∧ fault.message = name ++ rest

theorem Failure.Names.isFault {name : String} {f : Failure} (h : f.Names name) : f.IsFault := by
  obtain ⟨fault, -, rfl, -⟩ := h
  exact ⟨fault, rfl⟩

namespace Datum

variable {name : String} {v : Datum} {x : Binary64}

/-- A whole number beyond all doubles. -/
def IsBeyond : Datum → Prop
  | int i => Binary64.doubleLimit ≤ i.natAbs
  | _ => False

instance : DecidablePred IsBeyond
  | int i => inferInstanceAs (Decidable (Binary64.doubleLimit ≤ i.natAbs))
  | null | bool _ | real _ | decimal _ | date .. | impossible _ | text _ | list _ | mapping _ =>
    inferInstanceAs (Decidable False)

/-- How a value is refused for a setting: by a fault that names the setting, or
as a whole number that is too large. -/
def Refused (name : String) (v : Datum) (f : Failure) : Prop :=
  f.Names name ∨ f = .tooLarge ∧ v.IsBeyond

theorem Refused.isFault_or {f : Failure} (h : Refused name v f) :
    f.IsFault ∨ f = .tooLarge ∧ v.IsBeyond :=
  h.imp_left Failure.Names.isFault

theorem ends_readNumber (name : String) (v : Datum) :
    Ends (·.isFinite = true) (Refused name v) (v.readNumber name) := by
  have hchecked (x : Binary64) : Ends (·.isFinite = true) (Refused name v)
      (if x.isFinite then pure x else throw (.fault (.notFinite name)) :
        Except Failure Binary64) := by
    split_ifs with hfinite
    · exact hfinite
    · exact .inl ⟨.notFinite name, " must be finite", rfl, rfl⟩
  cases v with
  | int i =>
    have hdouble : Ends (fun _ => True) (Refused name (int i)) (Quantity.whole i).double := by
      unfold Quantity.double
      split_ifs with hfinite
      · trivial
      · exact .inr ⟨rfl, not_lt.1 fun hlt => hfinite (Binary64.isFinite_ofInt_iff.2 hlt)⟩
    exact hdouble.bind fun x _ => hchecked x
  | real x => exact hchecked x
  | text s =>
    unfold readNumber
    dsimp only
    cases Binary64.read? (Text.trim Text.isBlank s.toList) with
    | some x => exact hchecked x
    | none =>
      refine .inl ⟨.notNumeral name s, " must be a number, got '" ++ (s ++ "'"), rfl, ?_⟩
      show name ++ " must be a number, got '" ++ s ++ "'" = _
      rw [String.append_assoc, String.append_assoc]
  | null => exact .inl ⟨.required name, " is required", rfl, rfl⟩
  | _ => exact .inl ⟨.notNumber name, " must be a number", rfl, rfl⟩

theorem isFinite_of_readNumber (h : v.readNumber name = .ok x) : x.isFinite = true :=
  (ends_readNumber name v).of_ok h

theorem readNumber_of_isBeyond (name : String) (h : v.IsBeyond) :
    v.readNumber name = .error .tooLarge := by
  cases v with
  | int i =>
    have hdouble : (Quantity.whole i).double = .error .tooLarge := by
      refine if_neg fun hfinite => ?_
      exact absurd (Binary64.isFinite_ofInt_iff.1 hfinite) (not_lt.2 h)
    simp only [readNumber, hdouble]
    rfl
  | _ => exact h.elim

/-- A finite number from the least to the greatest gap. -/
structure IsGap (x : Binary64) : Prop where
  isFinite : x.isFinite = true
  minGap_le : minGap ≤ x
  le_maxGap : x ≤ maxGap

theorem ends_readGap (v : Datum) :
    Ends IsGap (Refused "gap" v) v.readGap := by
  refine Ends.bind (ends_readNumber "gap" v) fun x hx => Ends.guard ?_ ?_
  · intro _
    exact .inl ⟨.gapRange, " must be between -2.0 and 5.0 seconds", rfl, rfl⟩
  · intro hrange
    obtain ⟨hmin, hmax⟩ := not_or.1 fun h => hrange (by simpa using h)
    have hnan := Binary64.isNaN_of_isFinite hx
    refine ⟨hx, Binary64.le_of_not_lt hnan ?_ hmin, Binary64.le_of_not_lt ?_ hnan hmax⟩
    · decide +kernel
    · decide +kernel

theorem readGap_of_isBeyond (h : v.IsBeyond) : v.readGap = .error .tooLarge := by
  rw [readGap, readNumber_of_isBeyond "gap" h]
  rfl

/-! ## Whole numbers in data -/

/-- The value is the other one, or stands somewhere in it. -/
inductive Within (v : Datum) : Datum → Prop
  | self : v.Within v
  | item {items : List Datum} {w : Datum} (hw : w ∈ items) (h : v.Within w) : v.Within (.list items)
  | key {entries : List (Datum × Datum)} {e : Datum × Datum} (he : e ∈ entries)
    (h : v.Within e.1) : v.Within (.mapping entries)
  | value {entries : List (Datum × Datum)} {e : Datum × Datum} (he : e ∈ entries)
    (h : v.Within e.2) : v.Within (.mapping entries)

/-- No whole number in the value is beyond all doubles. -/
def FitsDoubles (w : Datum) : Prop := ∀ v : Datum, v.Within w → ¬v.IsBeyond

/-- A whole number that has more digits than can be shown. -/
def IsUnshown : Datum → Prop
  | int i => tenPow maxIntDigits ≤ i.natAbs
  | _ => False

theorem itemsHaveInspection_iff {items : List Datum} :
    itemsHaveInspection items = true ↔ ∀ w ∈ items, w.hasInspection = true := by
  induction items with
  | nil => simp [itemsHaveInspection]
  | cons w items ih => rw [itemsHaveInspection, Bool.and_eq_true, ih, List.forall_mem_cons]

theorem entriesHaveInspection_iff {entries : List (Datum × Datum)} :
    entriesHaveInspection entries = true ↔
      ∀ e ∈ entries, e.1.hasInspection = true ∧ e.2.hasInspection = true := by
  induction entries with
  | nil => simp [entriesHaveInspection]
  | cons e entries ih =>
    rw [entriesHaveInspection, Bool.and_eq_true, Bool.and_eq_true, ih, List.forall_mem_cons]

/-- What stands in a value that can be inspected can be so itself. -/
theorem Within.hasInspection {w : Datum} (h : v.Within w) (hw : w.hasInspection = true) :
    v.hasInspection = true := by
  induction h with
  | self => exact hw
  | item hmem _ ih =>
    rw [Datum.hasInspection, itemsHaveInspection_iff] at hw
    exact ih (hw _ hmem)
  | key hmem _ ih =>
    rw [Datum.hasInspection, entriesHaveInspection_iff] at hw
    exact ih (hw _ hmem).1
  | value hmem _ ih =>
    rw [Datum.hasInspection, entriesHaveInspection_iff] at hw
    exact ih (hw _ hmem).2

theorem hasInspection_int_eq_false_iff {i : Int} :
    (int i).hasInspection = false ↔ (int i).IsUnshown := by
  rw [hasInspection, decide_eq_false_iff_not]
  exact not_lt

theorem IsUnshown.hasInspection_eq_false (h : v.IsUnshown) : v.hasInspection = false := by
  cases v with
  | int i => exact hasInspection_int_eq_false_iff.2 h
  | _ => exact h.elim

theorem exists_isUnshown : ∀ w : Datum, w.hasInspection = false →
    ∃ v : Datum, v.Within w ∧ v.IsUnshown
  | int i => fun hw => ⟨int i, .self, hasInspection_int_eq_false_iff.1 hw⟩
  | list items => fun hw => by
    rw [hasInspection, ← Bool.not_eq_true, itemsHaveInspection_iff] at hw
    push Not at hw
    obtain ⟨w, hmem, hw⟩ := hw
    have := List.sizeOf_lt_of_mem hmem
    obtain ⟨v, hv, hunshown⟩ := exists_isUnshown w (by simpa using hw)
    exact ⟨v, .item hmem hv, hunshown⟩
  | mapping entries => fun hw => by
    rw [hasInspection, ← Bool.not_eq_true, entriesHaveInspection_iff] at hw
    push Not at hw
    obtain ⟨⟨key, value⟩, hmem, hw⟩ := hw
    have := List.sizeOf_lt_of_mem hmem
    by_cases hkey : key.hasInspection = true
    · obtain ⟨v, hv, hunshown⟩ := exists_isUnshown value (by simpa using hw hkey)
      exact ⟨v, .value hmem hv, hunshown⟩
    · obtain ⟨v, hv, hunshown⟩ := exists_isUnshown key (by simpa using hkey)
      exact ⟨v, .key hmem hv, hunshown⟩
  | null | bool _ | real _ | decimal _ | date .. | impossible _ | text _ => by rintro ⟨⟩
termination_by w => sizeOf w
decreasing_by all_goals
  simp only [Prod.mk.sizeOf_spec, list.sizeOf_spec, mapping.sizeOf_spec] at *
  omega

/-- A value cannot be inspected where a whole number with too many digits stands
in it. -/
theorem hasInspection_eq_false_iff {w : Datum} :
    w.hasInspection = false ↔ ∃ v : Datum, v.Within w ∧ v.IsUnshown := by
  refine ⟨exists_isUnshown w, ?_⟩
  rintro ⟨v, hv, hunshown⟩
  rw [← Bool.not_eq_true]
  intro hw
  exact absurd (hv.hasInspection hw) (by simp [hunshown.hasInspection_eq_false])

theorem hasDisplay_of_not_isBeyond (h : ¬v.IsBeyond) : v.hasDisplay = true := by
  cases v with
  | int i =>
    have hlimit : Binary64.doubleLimit ≤ tenPow maxIntDigits := by decide +kernel
    rw [hasDisplay, decide_eq_true_iff]
    exact (not_le.1 h).trans_le hlimit
  | _ => rfl

end Datum

end KineticText
