import KineticText.Canvas.Circle

/-!
# Cosine and sine by power series

The cosine and the sine of an angle, as the doubles nearest to the exact
values.  Both are sums of their power series, computed in whole numbers of
`2^-400`; for angles below seven the hundred terms taken are all that reach
this grid, and the sum is within a few thousand steps of it of the exact value.
-/

namespace KineticText

namespace PowerSeries

/-- How many binary places the sums are computed with. -/
def places : Nat := 400

def one : Nat := twoPow places

/-- Adds `count` terms of a series whose next term is `term`; the one after it
is that term times the negative square of the angle, divided by the next two
whole numbers after `k`. -/
def sumSeries (square : Nat) : (count k : Nat) → (term sum : Int) → Int
  | 0, _, _, sum => sum
  | count + 1, k, term, sum =>
    let next := -(term * square / (one * one * ((k + 1) * (k + 2)) : Nat))
    sumSeries square count (k + 2) next (sum + term)

/-- The nearest double to a number of grid steps. -/
def toBinary64 (steps : Int) : Binary64 := .ofFraction (steps < 0) steps.natAbs one

def onGrid (angle : Binary64) : Nat := angle.units.natAbs / twoPow (1074 - places)

def cos (angle : Binary64) : Binary64 :=
  toBinary64 (sumSeries (onGrid angle * onGrid angle) 100 0 one 0)

def sin (angle : Binary64) : Binary64 :=
  toBinary64 (sumSeries (onGrid angle * onGrid angle) 100 1 (onGrid angle) 0)

instance : Trigonometry := ⟨cos, sin⟩

end PowerSeries

end KineticText
