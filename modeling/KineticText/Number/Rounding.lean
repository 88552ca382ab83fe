/-!
# Rounding a quotient to a whole number

`halfEven n d` is the whole number nearest to `n / d`; a quotient half way
between two whole numbers goes to the even one.  Every rounding in this
library, binary or decimal, is one call of it.
-/

namespace KineticText

/-- The whole number nearest to `n / d`, ties to even. -/
def halfEven (n d : Nat) : Nat :=
  let quotient := n / d
  let remainder := n % d
  if 2 * remainder < d then quotient
  else if d < 2 * remainder then quotient + 1
  else quotient + quotient % 2

theorem halfEven_mul (q : Nat) {d : Nat} (hd : 0 < d) : halfEven (q * d) d = q := by
  simp [halfEven, Nat.mul_div_cancel q hd, hd]

end KineticText
