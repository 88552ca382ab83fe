import KineticText.Proofs.Number.Rounded
import Mathlib.Order.WithBot

/-!
# Quantities on a line

Quantities of any kinds are compared without rounding.  So each of them that is
defined has a place on one line, with the infinities at its ends, and the order
of quantities is that of their places (`Quantity.lt_iff_place`,
`Quantity.le_iff_place`).  Comparisons of whole numbers, truth values and
doubles can be chained by way of these places.

A quantity that has the place of its nearest double can be rounded in
comparisons (`Quantity.IsExact`).
-/

namespace KineticText

/-- The numbers, with an infinity at either end. -/
abbrev Line : Type := WithBot (WithTop ℚ)

namespace Line

def ofRat (r : ℚ) : Line := ((r : WithTop ℚ) : WithBot (WithTop ℚ))

theorem ofRat_lt_ofRat {r s : ℚ} : ofRat r < ofRat s ↔ r < s := by
  rw [ofRat, ofRat, WithBot.coe_lt_coe, WithTop.coe_lt_coe]

theorem bot_lt_ofRat (r : ℚ) : ⊥ < ofRat r := WithBot.bot_lt_coe _

theorem ofRat_lt_top (r : ℚ) : ofRat r < ⊤ := WithBot.coe_lt_coe.2 (WithTop.coe_lt_top _)

end Line

open Line (ofRat ofRat_lt_ofRat bot_lt_ofRat ofRat_lt_top)

/-! ## Doubles -/

namespace Binary64

/-- The place of a double; one that is undefined has none, and is put at the
lower end. -/
def place : Binary64 → Line
  | x@(finite ..) => ofRat x.value
  | infinity false => ⊤
  | infinity true | nan => ⊥

variable {x y : Binary64}

theorem place_of_isFinite (h : x.isFinite = true) : x.place = ofRat x.value := by
  obtain ⟨negative, m, rfl⟩ := exists_finite_of_isFinite h
  rfl

theorem key_lt_iff_place (hx : x.isNaN = false) (hy : y.isNaN = false) :
    x.key < y.key ↔ x.place < y.place := by
  have hlast : (infinity false).key = rankLimit := rfl
  have hfirst : (infinity true).key = -rankLimit := rfl
  have hbetween (b : Bool) (m : Magnitude) := (isFinite_iff (x := finite b m)).1 rfl
  match x, y with
  | finite a m, finite b n =>
    rw [← value_lt_value_iff rfl rfl, place_of_isFinite rfl, place_of_isFinite rfl, ofRat_lt_ofRat]
  | finite a m, infinity false =>
    have := hbetween a m
    exact iff_of_true (by omega) (ofRat_lt_top _)
  | infinity true, finite b n =>
    have := hbetween b n
    exact iff_of_true (by omega) (bot_lt_ofRat _)
  | infinity true, infinity false =>
    exact iff_of_true (lt_iff_key.1 infinity_lt_infinity).2.2 bot_lt_top
  | infinity false, y =>
    have := natAbs_key_le y
    exact iff_of_false (by omega) not_top_lt
  | x, infinity true =>
    have := natAbs_key_le x
    exact iff_of_false (by omega) not_lt_bot

theorem lt_iff_place : x < y ↔ x.isNaN = false ∧ y.isNaN = false ∧ x.place < y.place := by
  rw [lt_iff_key]
  constructor
  · intro h
    obtain ⟨hx, hy, hkey⟩ := h
    exact ⟨hx, hy, (key_lt_iff_place hx hy).1 hkey⟩
  · intro h
    obtain ⟨hx, hy, hplace⟩ := h
    exact ⟨hx, hy, (key_lt_iff_place hx hy).2 hplace⟩

theorem le_iff_place : x ≤ y ↔ x.isNaN = false ∧ y.isNaN = false ∧ x.place ≤ y.place := by
  rw [le_iff_key]
  refine and_congr_right fun hx => and_congr_right fun hy => ?_
  rw [← not_lt, ← not_lt, key_lt_iff_place hy hx]

end Binary64

/-! ## Quantities -/

namespace Quantity

def place : Quantity → Line
  | real x => x.place
  | q => ofRat q.value

variable {p q r : Quantity} {n : ℤ} {x : Binary64}

theorem place_of_whole? (h : q.whole? = some n) : q.place = ofRat n := by
  cases q with
  | whole value =>
    cases h
    rfl
  | real x => cases h
  | truth value => cases value <;> cases h <;> simp [place, value]

theorem isNaN_of_whole? (h : q.whole? = some n) : q.isNaN = false := by
  cases q with
  | real x => cases h
  | _ => rfl

theorem wholeBelow_iff_place : wholeBelow n x = true ↔ x.isNaN = false ∧ ofRat n < x.place := by
  cases x with
  | finite negative m =>
    have hbelow : wholeBelow n (.finite negative m) =
        decide (n * (twoPow 1074 : ℤ) < (Binary64.finite negative m).units) := rfl
    rw [hbelow, decide_eq_true_iff, Binary64.place_of_isFinite rfl, ofRat_lt_ofRat, Binary64.value,
      lt_div_iff₀ (by positivity), ← cast_twoPow, Binary64.isNaN_of_isFinite rfl, eq_self_iff_true,
      true_and]
    exact_mod_cast Iff.rfl
  | infinity negative =>
    cases negative with
    | false => exact iff_of_true rfl ⟨rfl, ofRat_lt_top _⟩
    | true => exact iff_of_false (by simp [wholeBelow]) fun h => not_lt_bot h.2
  | nan => exact iff_of_false (by simp [wholeBelow]) (by rintro ⟨⟨⟩, -⟩)

theorem belowWhole_iff_place : belowWhole x n = true ↔ x.isNaN = false ∧ x.place < ofRat n := by
  cases x with
  | finite negative m =>
    have hbelow : belowWhole (.finite negative m) n =
        decide ((Binary64.finite negative m).units < n * (twoPow 1074 : ℤ)) := rfl
    rw [hbelow, decide_eq_true_iff, Binary64.place_of_isFinite rfl, ofRat_lt_ofRat, Binary64.value,
      div_lt_iff₀ (by positivity), ← cast_twoPow, Binary64.isNaN_of_isFinite rfl, eq_self_iff_true,
      true_and]
    exact_mod_cast Iff.rfl
  | infinity negative =>
    cases negative with
    | false => exact iff_of_false (by simp [belowWhole]) fun h => not_top_lt h.2
    | true => exact iff_of_true rfl ⟨rfl, bot_lt_ofRat _⟩
  | nan => exact iff_of_false (by simp [belowWhole]) (by rintro ⟨⟨⟩, -⟩)

theorem lt_iff_place : p < q ↔ p.isNaN = false ∧ q.isNaN = false ∧ p.place < q.place := by
  show p.lt q = true ↔ _
  unfold lt
  cases hp : p.whole? with
  | some a =>
    rw [isNaN_of_whole? hp, place_of_whole? hp]
    cases hq : q.whole? with
    | some b =>
      rw [isNaN_of_whole? hq, place_of_whole? hq, ofRat_lt_ofRat, Int.cast_lt]
      simp
    | none =>
      rw [eq_real_of_whole? hq, and_iff_right rfl]
      exact wholeBelow_iff_place
  | none =>
    rw [eq_real_of_whole? hp]
    cases hq : q.whole? with
    | some b =>
      rw [isNaN_of_whole? hq, place_of_whole? hq, and_iff_right rfl]
      exact belowWhole_iff_place
    | none =>
      rw [eq_real_of_whole? hq, decide_eq_true_iff]
      exact Binary64.lt_iff_place

theorem le_iff_place : p ≤ q ↔ p.isNaN = false ∧ q.isNaN = false ∧ p.place ≤ q.place := by
  have hlt : q.lt p = true ↔ q.isNaN = false ∧ p.isNaN = false ∧ q.place < p.place := lt_iff_place
  show p.le q = true ↔ _
  rw [le, Bool.and_eq_true, Bool.and_eq_true, Bool.not_eq_true', Bool.not_eq_true',
    Bool.not_eq_true', and_assoc]
  refine and_congr_right fun hp => and_congr_right fun hq => ?_
  rw [← Bool.not_eq_true, hlt, ← not_lt]
  simp [hp, hq]

theorem lt_irrefl (p : Quantity) : ¬p < p := fun h => (lt_iff_place.1 h).2.2.false

theorem le_refl (hp : p.isNaN = false) : p ≤ p := le_iff_place.2 ⟨hp, hp, le_rfl⟩

theorem lt_trans (hpq : p < q) (hqr : q < r) : p < r := by
  rw [lt_iff_place] at hpq hqr ⊢
  exact ⟨hpq.1, hqr.2.1, hpq.2.2.trans hqr.2.2⟩

theorem le_trans (hpq : p ≤ q) (hqr : q ≤ r) : p ≤ r := by
  rw [le_iff_place] at hpq hqr ⊢
  exact ⟨hpq.1, hqr.2.1, hpq.2.2.trans hqr.2.2⟩

theorem lt_of_le_of_lt (hpq : p ≤ q) (hqr : q < r) : p < r := by
  rw [le_iff_place] at hpq
  rw [lt_iff_place] at hqr ⊢
  exact ⟨hpq.1, hqr.2.1, hpq.2.2.trans_lt hqr.2.2⟩

theorem le_of_not_lt (hp : p.isNaN = false) (hq : q.isNaN = false) (h : ¬p < q) : q ≤ p :=
  le_iff_place.2 ⟨hq, hp, not_lt.1 fun hplace => h (lt_iff_place.2 ⟨hp, hq, hplace⟩)⟩

protected theorem not_lt (hp : p.isNaN = false) (hq : q.isNaN = false) : ¬p < q ↔ q ≤ p := by
  rw [lt_iff_place, le_iff_place, hp, hq]
  simp

protected theorem not_le (hp : p.isNaN = false) (hq : q.isNaN = false) : ¬p ≤ q ↔ q < p := by
  rw [lt_iff_place, le_iff_place, hp, hq]
  simp

/-- The smaller of two defined quantities is not greater than either of them. -/
theorem smaller_le (hp : p.isNaN = false) (hq : q.isNaN = false) :
    (p.smaller q).isNaN = false ∧ p.smaller q ≤ p ∧ p.smaller q ≤ q := by
  rw [smaller]
  split_ifs with h
  · exact ⟨hq, le_iff_place.2 ⟨hq, hp, (lt_iff_place.1 h).2.2.le⟩, le_refl hq⟩
  · exact ⟨hp, le_refl hp, le_of_not_lt hq hp h⟩

theorem place_zero : (0 : Quantity).place = (0 : Binary64).place := by
  have hwhole : (0 : Quantity).whole? = some 0 := rfl
  rw [place_of_whole? hwhole, Binary64.place_of_isFinite Binary64.isFinite_zero, Binary64.value_zero, Int.cast_zero]

theorem real_lt_zero_iff : real x < 0 ↔ x < 0 := by
  rw [lt_iff_place, Binary64.lt_iff_place, place_zero, Binary64.isNaN_zero]
  exact Iff.rfl

theorem real_le_zero_iff : real x ≤ 0 ↔ x ≤ 0 := by
  rw [le_iff_place, Binary64.le_iff_place, place_zero, Binary64.isNaN_zero]
  exact Iff.rfl

theorem real_smaller_real (x y : Binary64) : (real x).smaller (real y) = real (x.smaller y) := by
  rw [smaller, Binary64.smaller, apply_ite real]
  exact ite_congr (propext real_lt_real) (fun _ => rfl) fun _ => rfl

theorem real_larger_real (x y : Binary64) : (real x).larger (real y) = real (x.larger y) := by
  rw [larger, Binary64.larger, apply_ite real]
  exact ite_congr (propext real_lt_real) (fun _ => rfl) fun _ => rfl

/-- A quantity whose nearest double is positive is positive. -/
theorem not_le_zero_of_toBinary64 {q : Quantity} (h : 0 < q.toBinary64) : ¬q ≤ 0 := by
  have hlt : real 0 < q := lt_of_lt_rounded (real_lt_real.2 h)
  rw [lt_iff_place] at hlt
  rw [le_iff_place, place_zero]
  exact fun hle => hlt.2.2.not_ge hle.2.2

/-! ## Rounded quantities -/

/-- The nearest double is at the place of the quantity, as it is for every
double. -/
def IsExact (q : Quantity) : Prop := q.rounded.place = q.place

/-- Whole numbers below `2 ^ 53` are doubles. -/
theorem isExact_of_whole? (h : q.whole? = some n) (hn : n.natAbs < 2 ^ 53) : q.IsExact := by
  rw [IsExact, place_of_whole? h, ← Binary64.value_ofInt hn, rounded, ofInt_of_whole? h]
  exact Binary64.place_of_isFinite (Binary64.isFinite_ofInt hn)

theorem isNaN_rounded (q : Quantity) : q.rounded.isNaN = q.isNaN := by
  cases hq : q.whole? with
  | none => rw [eq_real_of_whole? hq, rounded, toBinary64]
  | some n =>
    rw [isNaN_of_whole? hq, rounded, ofInt_of_whole? hq, isNaN, Binary64.isNaN_ofInt]

theorem IsExact.lt_rounded_iff (h : q.IsExact) : p < q.rounded ↔ p < q := by
  rw [lt_iff_place, lt_iff_place, h, isNaN_rounded]

theorem IsExact.rounded_lt_iff (h : q.IsExact) : q.rounded < p ↔ q < p := by
  rw [lt_iff_place, lt_iff_place, h, isNaN_rounded]

theorem IsExact.le_rounded_iff (h : q.IsExact) : p ≤ q.rounded ↔ p ≤ q := by
  rw [le_iff_place, le_iff_place, h, isNaN_rounded]

theorem IsExact.rounded_le_iff (h : q.IsExact) : q.rounded ≤ p ↔ q ≤ p := by
  rw [le_iff_place, le_iff_place, h, isNaN_rounded]

end Quantity

end KineticText
