import KineticText.Canvas.PowerSeries
import KineticText.Proofs.Composition.Answer
import KineticText.Proofs.Script.Respaced

/-!
# Compositions of respaced texts

A composition looks at a text by its segments, by the advice about its tags and
by what a reader sees of it.  So texts that differ only in their blank
characters outside of brackets have the same composition, whatever the gap, the
canvas and the generator are, and they fail alike (`compose_respaced`).
-/

namespace KineticText

namespace Composition

theorem compose_congr [Trigonometry] {s t : List Char} (hread : Script.read s = Script.read t)
    (hdisplay : Script.displayText s = Script.displayText t) (gap : Datum) (c : Canvas)
    (g : Generator) :
    compose (.text (String.ofList s)) gap c g = compose (.text (String.ofList t)) gap c g := by
  cases hgap : Schedule.gapOf gap with
  | error f => rw [compose_of_gapOf hgap, compose_of_gapOf hgap]
  | ok γ =>
    cases hlayout : c.layout g (Schedule.assign γ (Script.read s).segments).1 with
    | error f =>
      rw [compose_of_layout_error hgap hlayout, compose_of_layout_error hgap (hread ▸ hlayout)]
    | ok l =>
      rw [compose_of_layout hgap hlayout, compose_of_layout hgap (hread ▸ hlayout), ofLayout,
        ofLayout, hread, hdisplay]

theorem compose_respaced [Trigonometry] {s t : List Char} (h : Script.IsRespaced s t) :
    Token.scan s = Token.scan t ∧ Script.read s = Script.read t ∧
      Script.displayText s = Script.displayText t ∧
        ∀ (gap : Datum) (c : Canvas) (g : Generator),
          compose (.text (String.ofList s)) gap c g =
            compose (.text (String.ofList t)) gap c g :=
  ⟨h.scan_eq, h.read_eq, h.displayText_eq, compose_congr h.read_eq h.displayText_eq⟩

/-- Blank runs between words, behind a tag and behind a bracket without a
partner.  There is one in a malformed tag, too. -/
def looseCore : List Char := "a \tb<1 L><1L1R1> <\nc".toList

/-- Blank characters at both ends, too. -/
def looseText : List Char := "  ".toList ++ looseCore ++ "\n".toList

/-- Other blank runs at these places, but for the one in the tag. -/
def tightText : List Char := "a b<1 L><1L1R1>\n\n< c".toList

/-- The three runs stand behind `a`, behind the tags and behind the bracket. -/
theorem respaced_looseCore :
    Text.Respaced (fun k => ¬Tag.Covered looseText ("  ".toList.length + k)) looseCore
      tightText := by
  show Text.Respaced _
    ("a".toList ++ (" \t".toList ++ ("b<1 L><1L1R1>".toList ++ (" ".toList ++ ("<".toList ++
      ("\n".toList ++ ("c".toList ++ [])))))))
    ("a".toList ++ (" ".toList ++ ("b<1 L><1L1R1>".toList ++ ("\n\n".toList ++ ("<".toList ++
      (" ".toList ++ ("c".toList ++ [])))))))
  refine .append_left _ (.run ?_ ?_ (List.all_eq_true.1 rfl) (List.all_eq_true.1 rfl) ?_
    (.append_left _ (.run ?_ ?_ (List.all_eq_true.1 rfl) (List.all_eq_true.1 rfl) ?_
      (.append_left _ (.run ?_ ?_ (List.all_eq_true.1 rfl) (List.all_eq_true.1 rfl) ?_
        (.append_left _ .nil))))))
  all_goals decide +kernel

theorem isRespaced_looseText : Script.IsRespaced looseText tightText := by
  have hfront : ∀ c ∈ "  ".toList, Text.isBlank c = true := List.all_eq_true.1 rfl
  have hback : ∀ c ∈ "\n".toList, Text.isBlank c = true := List.all_eq_true.1 rfl
  have hempty : ∀ c ∈ ([] : List Char), Text.isBlank c = true := List.forall_mem_nil _
  have h := Script.IsRespaced.intro hfront hback hempty hempty respaced_looseCore
  rwa [List.nil_append, List.append_nil] at h

theorem compose_respaced_looseText :
    Script.IsRespaced looseText tightText ∧
      Token.scan looseText = Token.scan tightText ∧
      Script.read looseText = Script.read tightText ∧
      Script.displayText looseText = Script.displayText tightText ∧
        ∀ (gap : Datum) (c : Canvas) (g : Generator),
          compose (.text (String.ofList looseText)) gap c g =
            compose (.text (String.ofList tightText)) gap c g :=
  ⟨isRespaced_looseText, compose_respaced isRespaced_looseText⟩

end Composition

end KineticText
