/-!
# Powers

Powers of two and of ten, on which doubles and decimals are built.
-/

namespace KineticText

abbrev twoPow (exponent : Nat) : Nat := Nat.pow 2 exponent

abbrev tenPow (exponent : Nat) : Nat := Nat.pow 10 exponent

theorem twoPow_pos (exponent : Nat) : 0 < twoPow exponent := Nat.pow_pos (by decide)

theorem tenPow_pos (exponent : Nat) : 0 < tenPow exponent := Nat.pow_pos (by decide)

end KineticText
